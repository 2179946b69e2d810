import TradeAgent.OrderStreamUpdates

/-! What the stream says of itself, in any order of the reader's moves and the runtime's ticks: an update comes only after
the handshake, the health is that of the connection, and every pause is as long as those before it ask for. -/
namespace TradeAgent.OrderStream
variable {F : Type} {settings : Settings} {wire : List (String × Json F) → Option WireUpdate} {s s' : System F}
  {stream stream' : Stream F} {entries : List Entry}

/-! ## The handshake -/

/-- What makes and breaks a connection. -/
def Entry.isMark : Entry → Bool
  | .opened | .authorized | .subscribed | .left => true
  | _ => false

def marks (log : List Entry) : List Entry := log.filter Entry.isMark

/-- How a connection comes to a stage. -/
def path : Stage → List Entry
  | .authenticating => [.opened]
  | .subscribing => [.opened, .authorized]
  | .listening => [.opened, .authorized, .subscribed]

/-- The connection is at a stage exactly if its marks are those of the way there. -/
structure Placed (stage : Option Stage) (log : List Entry) : Prop where
  up : ∀ at_ ∈ stage, ∃ earlier, marks log = earlier ++ path at_
  down : stage = none → marks log = [] ∨ ∃ earlier, marks log = earlier ++ [.left]

/-- The flags of the health: connected, authenticated and subscribed. -/
def Health.flags (h : Health) : Bool × Bool × Bool := (h.connected, h.authenticated, h.subscribed)

def stageFlags : Option Stage → Bool × Bool × Bool
  | none => (false, false, false)
  | some .authenticating => (true, false, false)
  | some .subscribing => (true, true, false)
  | some .listening => (true, true, true)

theorem marks_append (log more : List Entry) : marks (log ++ more) = marks log ++ marks more := List.filter_append ..

theorem Placed.silent {stage : Option Stage} {log : List Entry} (h : Placed stage log) (none_ : marks entries = []) :
    Placed stage (log ++ entries) := by
  constructor
  · rw [marks_append, none_, List.append_nil]
    exact h.up
  · rw [marks_append, none_, List.append_nil]
    exact h.down

/-- How the stage goes on, and by which marks. -/
inductive Staged : Option Stage → Option Stage → List Entry → Prop where
  | kept (stage) : Staged stage stage []
  | opened : Staged none (some .authenticating) [.opened]
  | authorized : Staged (some .authenticating) (some .subscribing) [.authorized]
  | subscribed : Staged (some .subscribing) (some .listening) [.subscribed]
  | left (stage) : Staged (some stage) none [.left]

theorem Placed.staged {stage stage' : Option Stage} {log : List Entry} (h : Placed stage log)
    (staged : Staged stage stage' (marks entries)) : Placed stage' (log ++ entries) := by
  have appended := marks_append log entries
  generalize marks entries = more at *
  cases staged with
  | kept =>
    rw [List.append_nil] at appended
    exact ⟨appended ▸ h.up, appended ▸ h.down⟩
  | opened =>
    refine ⟨?_, by simp⟩
    rintro _ ⟨⟩
    exact ⟨marks log, appended⟩
  | authorized =>
    obtain ⟨earlier, way⟩ := h.up .authenticating rfl
    refine ⟨?_, by simp⟩
    rintro _ ⟨⟩
    exact ⟨earlier, by rw [appended, way, List.append_assoc]; rfl⟩
  | subscribed =>
    obtain ⟨earlier, way⟩ := h.up .subscribing rfl
    refine ⟨?_, by simp⟩
    rintro _ ⟨⟩
    exact ⟨earlier, by rw [appended, way, List.append_assoc]; rfl⟩
  | left stage => exact ⟨by simp, fun _ => .inr ⟨marks log, appended⟩⟩

theorem fail_staged (s : Stream F) (failure : Failure) (wasConnected : Bool) (delay : ℚ) (now : Instant) :
    (s.fail failure wasConnected delay now).1.reader.stage? = none ∧
      marks (s.fail failure wasConnected delay now).2 = [] := by
  refine ⟨?_, rfl⟩
  unfold Stream.fail
  simp only
  split <;> rfl

theorem Stepped.staged (stepped : Stepped settings stream stream' entries) :
    Staged stream.reader.stage? stream'.reader.stage? (marks entries) := by
  cases stepped with
  | still => exact .kept _
  | start now ready =>
    rw [ready]
    have none_ : marks (.started :: if stream.health.connections = 0 then [] else [.gap .readerRestarted]) = [] := by
      split <;> rfl
    rw [none_]
    exact .kept none
  | opened now delay ready =>
    rw [ready]
    exact .opened
  | refused unexpected now delay ready =>
    obtain ⟨down, none_⟩ := fail_staged stream (trouble unexpected) false delay now
    rw [ready, down, none_]
    exact .kept none
  | receive payload now stage delay ready =>
    rw [ready]
    exact .kept (some stage)
  | broke failure stage delay ready =>
    rcases ready with ready | ⟨payload, at_, ready⟩
    · rw [ready]
      exact .left stage
    · rw [ready]
      exact .left stage
  | authorized now delay payload at_ ready =>
    rw [ready]
    exact .authorized
  | subscribed now delay payload at_ ready =>
    rw [ready]
    exact .subscribed
  | enqueued now delay payload at_ data ready =>
    rw [ready]
    unfold Stream.enqueue
    split
    next =>
      cases stream.queue.head? <;> exact .kept (some .listening)
    next => exact .kept (some .listening)
  | renewed now failure delay ready retried =>
    obtain ⟨down, none_⟩ := fail_staged stream failure true settings.initialDelay now
    rw [ready, down, marks_append, none_]
    exact .kept none
  | closed now failure delay listened ready =>
    obtain ⟨down, none_⟩ := fail_staged stream failure true delay now
    rw [ready, down, none_]
    exact .kept none
  | cancelled ready =>
    rcases ready with ready | ⟨delay, ready⟩ <;> rw [ready] <;> exact .kept none
  | cut ready =>
    rcases ready with ⟨delay, ready⟩ | ⟨failure, delay, listened, ready⟩ <;> rw [ready] <;> exact .kept none
  | left stage delay ready =>
    rw [ready]
    exact .left stage
  | ended now ready =>
    rcases ready with ready | ready <;> rw [ready] <;> exact .kept none
  | first ready =>
    rw [ready]
    exact .kept none
  | again delay ready =>
    rw [ready]
    exact .kept none
  | paused delay ready =>
    rw [ready]
    exact .kept none
  | heard delay payload at_ ready =>
    rw [ready]
    exact .kept (some .listening)

theorem start_flags (h : Health) (now : Instant) : (h.start now).flags = h.flags := by
  by_cases none_ : h.connections = 0
  · simp only [Health.start, if_pos none_]
    rfl
  · simp only [Health.start, if_neg none_]
    rfl

theorem enqueue_flags (s : Stream F) (data : WireUpdate) (receivedAt now : Instant) :
    (s.enqueue settings data receivedAt now).1.health.flags = s.health.flags := by
  unfold Stream.enqueue
  split <;> rfl

theorem enqueue_reader (s : Stream F) (data : WireUpdate) (receivedAt now : Instant) :
    (s.enqueue settings data receivedAt now).1.reader = s.reader := by
  unfold Stream.enqueue
  split <;> rfl

theorem Stepped.flags (stepped : Stepped settings stream stream' entries)
    (h : stream.health.flags = stageFlags stream.reader.stage?) :
    stream'.health.flags = stageFlags stream'.reader.stage? := by
  cases stepped with
  | still => exact h
  | start now ready =>
    rw [ready] at h
    exact (start_flags stream.health now).trans h
  | refused unexpected now delay ready =>
    rw [ready] at h
    rw [(fail_staged stream (trouble unexpected) false delay now).1]
    exact h
  | renewed now failure delay ready retried =>
    rw [ready] at h
    rw [(fail_staged stream failure true settings.initialDelay now).1]
    exact h
  | closed now failure delay listened ready =>
    rw [ready] at h
    rw [(fail_staged stream failure true delay now).1]
    exact h
  | enqueued now delay payload at_ data ready =>
    rw [ready] at h
    rw [enqueue_flags, enqueue_reader]
    exact h
  | cancelled ready =>
    rcases ready with ready | ⟨delay, ready⟩ <;> rw [ready] at h <;> exact h
  | opened now delay ready =>
    rw [ready] at h
    simp only [Health.flags, stageFlags, Reader.stage?, Prod.mk.injEq, Health.opened] at h ⊢
    exact ⟨trivial, h.2⟩
  | authorized now delay payload at_ ready =>
    rw [ready] at h
    simp only [Health.flags, stageFlags, Reader.stage?, Prod.mk.injEq, Health.authorized] at h ⊢
    exact ⟨h.1, trivial, h.2.2⟩
  | subscribed now delay payload at_ ready =>
    rw [ready] at h
    simp only [Health.flags, stageFlags, Reader.stage?, Prod.mk.injEq, Health.subscribe] at h ⊢
    exact ⟨h.1, h.2.1, trivial⟩
  | broke | cut | left | ended => rfl
  | first ready | again _ ready | paused _ ready =>
    rw [ready] at h
    exact h
  | receive payload now stage delay ready =>
    rw [ready] at h
    exact h
  | heard delay payload at_ ready =>
    rw [ready] at h
    exact h

/-! ## What the health says -/

/-- What opens and closes the time in which nothing is missed. -/
def Entry.bounds : Entry → Bool
  | .started | .subscribed | .failed _ | .ended => true
  | _ => false

def bound (log : List Entry) : Option Entry := log.reverse.find? Entry.bounds

theorem bound_append (log more : List Entry) : bound (log ++ more) = (bound more).or (bound log) := by
  simp [bound, List.reverse_append]

/-- No gap is open: since the last subscription nothing failed or ended, or nothing has begun. -/
def Covered (log : List Entry) : Prop := ∀ entry ∈ bound log, entry = .subscribed

theorem Covered.silent {log : List Entry} (none_ : bound entries = none) : Covered (log ++ entries) ↔ Covered log := by
  rw [Covered, bound_append, none_, Option.none_or]
  rfl

theorem not_covered {log : List Entry} (entry : Entry) (last : bound entries = some entry)
    (other : entry ≠ .subscribed) : ¬Covered (log ++ entries) := by
  intro covered
  exact other (covered entry (by rw [bound_append, last]; rfl))

theorem or_some_ne_none {α : Type} (o : Option α) (a : α) : o.or (some a) ≠ none := by cases o <;> simp

theorem Stepped.covered {log : List Entry} (stepped : Stepped settings stream stream' entries)
    (h : stream.health.gapStartedAt = none ↔ Covered log) :
    stream'.health.gapStartedAt = none ↔ Covered (log ++ entries) := by
  have failed : ∀ failure wasConnected delay now, (stream.fail failure wasConnected delay now).1.health.gapStartedAt =
      none ↔ Covered (log ++ (stream.fail failure wasConnected delay now).2) := fun failure wasConnected delay now =>
    iff_of_false (or_some_ne_none _ _) (not_covered (.failed failure) rfl (by simp))
  cases stepped with
  | start now ready =>
    refine iff_of_false ?_ (not_covered .started ?_ (by simp))
    · unfold Health.start
      exact or_some_ne_none _ _
    · split <;> rfl
  | refused unexpected now delay ready => exact failed _ _ _ _
  | closed now failure delay listened ready => exact failed _ _ _ _
  | renewed now failure delay ready retried =>
    rw [← List.append_assoc, Covered.silent (by rfl)]
    exact failed _ _ _ _
  | subscribed now delay payload at_ ready =>
    refine iff_of_true rfl ?_
    intro entry last
    rw [bound_append] at last
    cases last
    rfl
  | ended now ready => exact iff_of_false (or_some_ne_none _ _) (not_covered .ended rfl (by simp))
  | enqueued now delay payload at_ data ready =>
    unfold Stream.enqueue
    split
    next =>
      rw [Covered.silent]
      · exact h
      · cases stream.queue.head? <;> rfl
    next =>
      rw [Covered.silent (by rfl)]
      exact h
  | _ =>
    rw [Covered.silent (by rfl)]
    exact h

/-- An update comes over a connection that has been through the handshake, and bears its number. -/
def Welcome (before : List Entry) (entry : Entry) : Prop := ∀ update ∈ entry.received?,
  (∃ earlier, marks before = earlier ++ path .listening) ∧ update.connectionId = before.count .opened

/-- What the health, the reader and what came about have of each other. -/
structure Sound (s : System F) : Prop where
  placed : Placed s.stream.reader.stage? s.log
  flags : s.stream.health.flags = stageFlags s.stream.reader.stage?
  covered : s.stream.health.gapStartedAt = none ↔ Covered s.log
  running : s.stream.health.running = s.stream.reader.active
  connections : s.stream.health.connections = s.log.count .opened
  updates : History.Each Welcome s.log

theorem Stepped.running (stepped : Stepped settings stream stream' entries)
    (h : stream.health.running = stream.reader.active) : stream'.health.running = stream'.reader.active := by
  have failed : ∀ failure wasConnected delay now,
      (stream.fail failure wasConnected delay now).1.reader.active = true := by
    intro failure wasConnected delay now
    unfold Stream.fail
    simp only
    split <;> rfl
  cases stepped with
  | still => exact h
  | start now ready =>
    unfold Health.start
    by_cases none_ : stream.health.connections = 0
    · simp only [if_pos none_]
      rfl
    · simp only [if_neg none_]
      rfl
  | refused unexpected now delay ready =>
    rw [failed]
    rw [ready] at h
    exact h
  | closed now failure delay listened ready =>
    rw [failed]
    rw [ready] at h
    exact h
  | renewed now failure delay ready retried =>
    rw [failed]
    rw [ready] at h
    exact h
  | enqueued now delay payload at_ data ready =>
    rw [enqueue_reader]
    rw [ready] at h
    unfold Stream.enqueue
    split <;> exact h
  | broke failure stage delay ready =>
    rcases ready with ready | ⟨payload, at_, ready⟩ <;> rw [ready] at h <;> exact h
  | cancelled ready =>
    rcases ready with ready | ⟨delay, ready⟩ <;> rw [ready] at h <;> exact h
  | cut ready =>
    rcases ready with ⟨delay, ready⟩ | ⟨failure, delay, listened, ready⟩ <;> rw [ready] at h <;> exact h
  | ended => rfl
  | first ready | opened _ _ ready | authorized _ _ _ _ ready | again _ ready | paused _ ready =>
    rw [ready] at h
    exact h
  | subscribed now delay payload at_ ready =>
    rw [ready] at h
    exact h
  | heard delay payload at_ ready =>
    rw [ready] at h
    exact h
  | receive payload now stage delay ready =>
    rw [ready] at h
    exact h
  | left stage delay ready =>
    rw [ready] at h
    exact h

theorem Stepped.connections (stepped : Stepped settings stream stream' entries) :
    stream'.health.connections = stream.health.connections + entries.count .opened := by
  cases stepped with
  | start now ready =>
    by_cases none_ : stream.health.connections = 0
    · simp only [Health.start, if_pos none_]
      rfl
    · simp only [Health.start, if_neg none_]
      rfl
  | enqueued now delay payload at_ data ready =>
    unfold Stream.enqueue
    split
    next =>
      cases stream.queue.head? <;> rfl
    next => rfl
  | _ => rfl

theorem Stepped.updates {log : List Entry} (stepped : Stepped settings stream stream' entries)
    (placed : Placed stream.reader.stage? log) (connections : stream.health.connections = log.count .opened) :
    History.Extends Welcome log entries := by
  have silent : ∀ {entry : Entry}, entry.received? = none → ∀ before, Welcome before entry := by
    intro entry none_ before update received
    rw [none_] at received
    cases received
  rcases stepped.brings with quiet | ⟨listening, came⟩
  · apply History.Extends.of_forall
    intro entry member
    exact silent (List.filterMap_eq_nil_iff.mp quiet.silent.1 entry member)
  · have welcome : ∀ update, update.connectionId = stream.health.connections → Welcome log (.received update) := by
      rintro update connection _ ⟨⟩
      exact ⟨placed.up .listening listening, connection.trans connections⟩
    cases came with
    | room update sequence connection => exact ⟨welcome update connection, trivial⟩
    | full update oldest rest sequence connection =>
      exact ⟨welcome update connection, silent rfl _, silent rfl _, trivial⟩

/-- What only the runtime does. -/
def Entry.ours : Entry → Bool
  | .consumed _ | .abandoned _ | .reconciled => true
  | _ => false

/-- The runtime leaves the reader alone. -/
theorem Turned.ours (turned : Turned settings s s') :
    (∃ stream entries, Stepped settings s.stream stream entries ∧ s' = { s with stream }.tell entries) ∨
      ∃ entries, (∀ entry ∈ entries, entry.ours = true) ∧ s'.log = s.log ++ entries ∧
        s'.stream.health = s.stream.health ∧ s'.stream.reader = s.stream.reader := by
  have handled : ∀ one two : List PaperTradeUpdate,
      ∀ entry ∈ one.map Entry.consumed ++ two.map Entry.abandoned, entry.ours = true := by
    intro one two entry member
    simp only [List.mem_append, List.mem_map] at member
    rcases member with ⟨update, -, rfl⟩ | ⟨update, -, rfl⟩ <;> rfl
  cases turned with
  | reader stepped => exact .inl ⟨_, _, stepped, rfl⟩
  | still => exact .inr ⟨[], by simp, by simp, rfl, rfl⟩
  | drained ready => exact .inr ⟨[], by simp, by simp, rfl, rfl⟩
  | observed batch ready => exact .inr ⟨[], by simp, by simp, rfl, rfl⟩
  | raised batch gaps index ready within => exact .inr ⟨_, handled _ _, rfl, rfl, rfl⟩
  | consumed batch gaps ready =>
    have all := handled batch []
    rw [List.map_nil, List.append_nil] at all
    exact .inr ⟨_, all, rfl, rfl, rfl⟩
  | reconciled batch gaps ready =>
    have all := handled batch []
    rw [List.map_nil, List.append_nil] at all
    refine .inr ⟨_, ?_, rfl, rfl, rfl⟩
    rw [List.forall_mem_append]
    exact ⟨all, by simp [Entry.ours]⟩

theorem marks_ours (ours : ∀ entry ∈ entries, entry.ours = true) : marks entries = [] := by
  apply List.filter_eq_nil_iff.mpr
  intro entry member
  have := ours entry member
  cases entry <;> simp_all [Entry.ours, Entry.isMark]

theorem bound_ours (ours : ∀ entry ∈ entries, entry.ours = true) : bound entries = none := by
  apply List.find?_eq_none.mpr
  intro entry member
  have := ours entry (List.mem_reverse.mp member)
  cases entry <;> simp_all [Entry.ours, Entry.bounds]

theorem Sound.turned (h : Sound s) (turned : Turned settings s s') : Sound s' := by
  rcases turned.ours with ⟨stream, entries, stepped, rfl⟩ | ⟨entries, ours, log, health, reader⟩
  · refine ⟨h.placed.staged stepped.staged, stepped.flags h.flags, stepped.covered h.covered,
      stepped.running h.running, ?_, h.updates.append (stepped.updates h.placed h.connections)⟩
    change stream.health.connections = (s.log ++ entries).count .opened
    rw [stepped.connections, h.connections, List.count_append]
  · constructor
    · rw [reader, log]
      exact h.placed.silent (marks_ours ours)
    · rw [reader, health]
      exact h.flags
    · rw [health, log, Covered.silent (bound_ours ours)]
      exact h.covered
    · rw [health, reader]
      exact h.running
    · rw [health, log, List.count_append, h.connections, Nat.left_eq_add, List.count_eq_zero]
      intro member
      cases ours _ member
    · rw [log]
      apply h.updates.append
      apply History.Extends.of_forall
      intro entry member before update received
      have := ours entry member
      cases entry <;> simp_all [Entry.ours, Entry.received?]

theorem Sound.initial : Sound ({} : System F) :=
  ⟨⟨by simp [Reader.stage?], fun _ => .inl rfl⟩, rfl, iff_of_true rfl (by simp [Covered, bound]), rfl, rfl, .nil⟩

/-- A connection is in a stage exactly if its marks say so. -/
theorem Placed.iff {stage : Option Stage} {log : List Entry} (h : Placed stage log) (at_ : Stage) :
    stage = some at_ ↔ ∃ earlier, marks log = earlier ++ path at_ := by
  constructor
  · rintro rfl
    exact h.up at_ rfl
  · rintro ⟨earlier, way⟩
    cases stage with
    | none =>
      rcases h.down rfl with empty | ⟨before, left⟩
      · rw [empty] at way
        cases at_ <;> simp [path] at way
      · have last := congrArg List.getLast? (left.symm.trans way)
        cases at_ <;> simp [path] at last
    | some other =>
      obtain ⟨before, way'⟩ := h.up other rfl
      have last := congrArg List.getLast? (way'.symm.trans way)
      cases at_ <;> cases other <;> first | rfl | simp [path] at last

theorem run_sound (settings : Settings) (wire : List (String × Json F) → Option WireUpdate)
    (acts : List (Act F)) : Sound (Machine.run (System.step settings wire) {} acts) :=
  run_turned (fun _ _ turned h => h.turned turned) .initial acts

/-- An update comes over a connection that was opened, authorized and subscribed and has not been left since, and bears
the number of that connection. -/
theorem updates_after_handshake (settings : Settings) (wire : List (String × Json F) → Option WireUpdate)
    (acts : List (Act F)) :
    History.Each (fun before entry => ∀ update ∈ entry.received?,
        (∃ earlier, marks before = earlier ++ [.opened, .authorized, .subscribed]) ∧
          update.connectionId = before.count .opened)
      (Machine.run (System.step settings wire) {} acts).log :=
  (run_sound settings wire acts).updates

/-- The health claims a connection, an authorization and a subscription exactly if the last connection has come that far
and was not left; no gap is open exactly if nothing failed or ended since the last subscription. -/
theorem health_truthful (settings : Settings) (wire : List (String × Json F) → Option WireUpdate)
    (acts : List (Act F)) :
    let s := Machine.run (System.step settings wire) {} acts
    (s.stream.health.connected = true ↔ ∃ stage earlier, marks s.log = earlier ++ path stage) ∧
      (s.stream.health.authenticated = true ↔
        ∃ stage earlier, stage ≠ .authenticating ∧ marks s.log = earlier ++ path stage) ∧
      (s.stream.health.subscribed = true ↔ ∃ earlier, marks s.log = earlier ++ path .listening) ∧
      (s.stream.health.gapStartedAt = none ↔ Covered s.log) ∧
      s.stream.health.connections = s.log.count .opened := by
  have sound := run_sound settings wire acts
  generalize Machine.run (System.step settings wire) {} acts = s at *
  have at_ := sound.placed.iff
  have flags := sound.flags
  rw [Health.flags, Prod.ext_iff, Prod.ext_iff] at flags
  obtain ⟨connected, authenticated, subscribed⟩ := flags
  dsimp only at connected authenticated subscribed ⊢
  refine ⟨?_, ?_, ?_, sound.covered, sound.connections⟩
  · rw [connected]
    simp only [← at_]
    cases s.stream.reader.stage? with
    | none => simp [stageFlags]
    | some stage => cases stage <;> simp [stageFlags]
  · rw [authenticated]
    simp only [exists_and_left, ← at_]
    cases s.stream.reader.stage? with
    | none => simp [stageFlags]
    | some stage => cases stage <;> simp [stageFlags]
  · rw [subscribed, ← at_]
    cases s.stream.reader.stage? with
    | none => simp [stageFlags]
    | some stage => cases stage <;> simp [stageFlags]

/-! ## Pauses -/

/-- After a start, or a subscription that lasted, pauses begin anew. -/
def Entry.renews : Entry → Bool
  | .started | .renewed => true
  | _ => false

def Entry.isPause : Entry → Bool
  | .paused _ => true
  | _ => false

def Entry.isStart : Entry → Bool
  | .started => true
  | _ => false

/-- What an attempt follows. -/
def Entry.turns : Entry → Bool
  | .started | .attempted | .failed _ | .paused _ | .ended => true
  | _ => false

def pauses (log : List Entry) : ℕ := (History.since Entry.renews log).countP Entry.isPause

def Settings.delayAfter (settings : Settings) (pauses : ℕ) : ℚ :=
  min (settings.initialDelay * 2 ^ pauses) settings.maxDelay

/-- Since the last start nothing has failed for good. -/
def Hopeful (log : List Entry) : Prop :=
  ∀ failure, .failed failure ∈ History.since Entry.isStart log → failure.terminal = false

/-- Every pause is as long as those before it ask for; every attempt follows a start or a pause, and hope. -/
def Patient (settings : Settings) (before : List Entry) : Entry → Prop
  | .paused delay => delay = settings.delayAfter (pauses before)
  | .attempted => Hopeful before ∧ ∃ last, before.reverse.find? Entry.turns = some last ∧
      (last = .started ∨ ∃ delay, last = .paused delay)
  | _ => True

/-- The delay that the reader has in hand. -/
def Pace (settings : Settings) (log : List Entry) : Reader F → Prop
  | .idle | .finished | .leaving => True
  | .starting => Hopeful log ∧ pauses log = 0 ∧ log.reverse.find? Entry.turns = some .started
  | .connecting delay | .reading _ delay | .handling _ delay _ _ | .closing _ delay _ | .backing delay =>
    Hopeful log ∧ delay = settings.delayAfter (pauses log)
  | .pausing delay => Hopeful log ∧ log.reverse.find? Entry.turns = some (.paused delay) ∧
      ∃ before, pauses log = before + 1 ∧ delay = settings.delayAfter before

theorem delayAfter_zero (settings : Settings) : settings.delayAfter 0 = settings.initialDelay := by
  simp [Settings.delayAfter, settings.ordered]

theorem delayAfter_succ (settings : Settings) (n : ℕ) :
    min (settings.delayAfter n * 2) settings.maxDelay = settings.delayAfter (n + 1) := by
  have positive := settings.positive.le.trans settings.ordered
  have capped : min (settings.maxDelay * 2) settings.maxDelay = settings.maxDelay := min_eq_right (by linarith)
  unfold Settings.delayAfter
  rw [pow_succ, ← mul_assoc, min_mul_of_nonneg _ _ zero_le_two, min_assoc, capped]

theorem delayAfter_bounds (settings : Settings) (n : ℕ) :
    settings.initialDelay ≤ settings.delayAfter n ∧ settings.delayAfter n ≤ settings.maxDelay := by
  refine ⟨le_min ?_ settings.ordered, min_le_right _ _⟩
  exact le_mul_of_one_le_right settings.positive.le (one_le_pow₀ one_le_two)

/-- Neither a start nor a pause. -/
def Entry.still (entry : Entry) : Bool := !entry.renews && !entry.isPause

theorem still_iff {entry : Entry} :
    entry.still = true ↔ entry.renews = false ∧ entry.isPause = false := by simp [Entry.still]

theorem pauses_still (log : List Entry) (still : ∀ entry ∈ entries, entry.still = true) :
    pauses (log ++ entries) = pauses log := by
  unfold pauses
  rw [History.since_append fun entry member => (still_iff.mp (still entry member)).1, List.countP_append,
    List.countP_reverse, List.countP_eq_zero.mpr, Nat.zero_add]
  intro entry member
  rw [(still_iff.mp (still entry member)).2]
  exact Bool.false_ne_true

/-- Hope lasts through what is neither a start nor the end of it. -/
theorem Hopeful.append {log : List Entry} (h : Hopeful log) (going : ∀ entry ∈ entries, entry.isStart = false)
    (hopeful : ∀ failure, .failed failure ∈ entries → failure.terminal = false) : Hopeful (log ++ entries) := by
  intro failure member
  rw [History.since_append going, List.mem_append, List.mem_reverse] at member
  rcases member with new | old
  · exact hopeful failure new
  · exact h failure old

/-- A reader that goes on with its delay. -/
theorem Pace.keep {log : List Entry} {delay : ℚ} (h : Hopeful log ∧ delay = settings.delayAfter (pauses log))
    (still : ∀ entry ∈ entries, entry.still = true)
    (hopeful : ∀ failure, .failed failure ∈ entries → failure.terminal = false) :
    Hopeful (log ++ entries) ∧ delay = settings.delayAfter (pauses (log ++ entries)) := by
  refine ⟨h.1.append ?_ hopeful, by rw [pauses_still log still]; exact h.2⟩
  intro entry member
  have := still entry member
  cases entry <;> simp_all [Entry.still, Entry.renews, Entry.isStart]

theorem fail_pace (stream : Stream F) {log : List Entry} {delay : ℚ} (h : Hopeful log ∧ delay = settings.delayAfter (pauses log))
    (failure : Failure) (wasConnected : Bool) (now : Instant) :
    Pace settings (log ++ (stream.fail failure wasConnected delay now).2)
      (stream.fail failure wasConnected delay now).1.reader := by
  unfold Stream.fail
  by_cases terminal : failure.terminal = true
  · simp only [if_pos terminal]
    trivial
  · simp only [if_neg terminal]
    apply Pace.keep h
    · simp [Entry.still, Entry.renews, Entry.isPause]
    · rintro other member
      simp only [List.mem_cons, Entry.failed.injEq, reduceCtorEq, List.not_mem_nil, or_false] at member
      rw [member]
      simpa using terminal

theorem Stepped.pace {log : List Entry} (stepped : Stepped settings stream stream' entries)
    (h : Pace settings log stream.reader) : Pace settings (log ++ entries) stream'.reader := by
  cases stepped with
  | still => simpa using h
  | start now ready =>
    have alone : Hopeful (log ++ [.started]) ∧ pauses (log ++ [.started]) = 0 := by
      constructor
      · intro failure member
        rw [History.since_mark rfl] at member
        cases member
      · rw [pauses, History.since_mark rfl]
        rfl
    split
    next => exact ⟨alone.1, alone.2, by simp [Entry.turns]⟩
    next =>
      rw [List.append_cons]
      refine ⟨alone.1.append (by simp [Entry.isStart]) (by simp), ?_, by simp [Entry.turns]⟩
      rw [pauses_still _ (by simp [Entry.still, Entry.renews, Entry.isPause])]
      exact alone.2
  | first ready =>
    rw [ready] at h
    obtain ⟨hopeful, none_, -⟩ := h
    have known : settings.initialDelay = settings.delayAfter (pauses log) := by rw [none_, delayAfter_zero]
    exact Pace.keep ⟨hopeful, known⟩ (by simp [Entry.still, Entry.renews, Entry.isPause]) (by simp)
  | again delay ready =>
    rw [ready] at h
    obtain ⟨hopeful, -, before, counted, rfl⟩ := h
    have known : min (settings.delayAfter before * 2) settings.maxDelay = settings.delayAfter (pauses log) := by
      rw [counted, delayAfter_succ]
    exact Pace.keep ⟨hopeful, known⟩ (by simp [Entry.still, Entry.renews, Entry.isPause]) (by simp)
  | opened now delay ready =>
    rw [ready] at h
    exact Pace.keep h (by simp [Entry.still, Entry.renews, Entry.isPause]) (by simp)
  | refused unexpected now delay ready =>
    rw [ready] at h
    exact fail_pace stream h _ _ _
  | receive payload now stage delay ready =>
    rw [ready] at h
    exact Pace.keep h (by simp) (by simp)
  | broke failure stage delay ready =>
    have known : Hopeful log ∧ delay = settings.delayAfter (pauses log) := by
      rcases ready with ready | ⟨payload, at_, ready⟩ <;> rw [ready] at h <;> exact h
    exact Pace.keep known (by simp [Entry.still, Entry.renews, Entry.isPause]) (by simp)
  | authorized now delay payload at_ ready =>
    rw [ready] at h
    exact Pace.keep h (by simp [Entry.still, Entry.renews, Entry.isPause]) (by simp)
  | subscribed now delay payload at_ ready =>
    rw [ready] at h
    exact Pace.keep h (by simp [Entry.still, Entry.renews, Entry.isPause]) (by simp)
  | heard delay payload at_ ready =>
    rw [ready] at h
    exact Pace.keep h (by simp) (by simp)
  | enqueued now delay payload at_ data ready =>
    rw [ready] at h
    rw [enqueue_reader]
    unfold Stream.enqueue
    split
    next =>
      apply Pace.keep h
      · cases stream.queue.head? <;> simp [Entry.still, Entry.renews, Entry.isPause]
      · cases stream.queue.head? <;> simp
    next => exact Pace.keep h (by simp [Entry.still, Entry.renews, Entry.isPause]) (by simp)
  | renewed now failure delay ready retried =>
    rw [ready] at h
    have failed := fail_pace stream h failure true now
    unfold Stream.fail at failed ⊢
    simp only [retried, Bool.false_eq_true, if_false] at failed ⊢
    rw [← List.append_assoc]
    refine ⟨failed.1.append (by simp [Entry.isStart]) (by simp), ?_⟩
    rw [pauses, History.since_mark rfl]
    exact (delayAfter_zero settings).symm
  | closed now failure delay listened ready =>
    rw [ready] at h
    exact fail_pace stream h _ _ _
  | paused delay ready =>
    rw [ready] at h
    obtain ⟨hopeful, rfl⟩ := h
    refine ⟨hopeful.append (by simp [Entry.isStart]) (by simp), by simp [Entry.turns], pauses log, ?_, rfl⟩
    unfold pauses
    rw [History.since_append (by simp [Entry.renews])]
    exact List.countP_cons_of_pos rfl
  | cancelled | cut | left | ended => trivial

theorem Stepped.patient {log : List Entry} (stepped : Stepped settings stream stream' entries)
    (h : Pace settings log stream.reader) : History.Extends (Patient settings) log entries := by
  cases stepped with
  | first ready =>
    rw [ready] at h
    exact ⟨⟨h.1, .started, h.2.2, .inl rfl⟩, trivial⟩
  | again delay ready =>
    rw [ready] at h
    exact ⟨⟨h.1, .paused delay, h.2.1, .inr ⟨delay, rfl⟩⟩, trivial⟩
  | paused delay ready =>
    rw [ready] at h
    exact ⟨h.2, trivial⟩
  | start now ready =>
    split <;> simp [History.Extends, Patient]
  | enqueued now delay payload at_ data ready =>
    unfold Stream.enqueue
    split
    next => cases stream.queue.head? <;> simp [History.Extends, Patient]
    next => simp [History.Extends, Patient]
  | _ => simp [History.Extends, Patient, Stream.fail]

theorem pace_ours {log : List Entry} {reader : Reader F} (h : Pace settings log reader)
    (ours : ∀ entry ∈ entries, entry.ours = true) : Pace settings (log ++ entries) reader := by
  have kinds : ∀ entry ∈ entries, entry.still = true ∧ entry.isStart = false ∧ entry.turns = false ∧
      ∀ failure, entry ≠ .failed failure := by
    intro entry member
    have := ours entry member
    cases entry <;> simp_all [Entry.ours, Entry.still, Entry.renews, Entry.isPause, Entry.isStart, Entry.turns]
  have hopeful : Hopeful log → Hopeful (log ++ entries) := fun hope => hope.append
    (fun entry member => (kinds entry member).2.1) fun failure member => absurd rfl ((kinds _ member).2.2.2 failure)
  have same := pauses_still log fun entry member => (kinds entry member).1
  have turn : (log ++ entries).reverse.find? Entry.turns = log.reverse.find? Entry.turns := by
    have none_ : entries.reverse.find? Entry.turns = none := by
      rw [List.find?_eq_none]
      intro entry member
      rw [(kinds entry (List.mem_reverse.mp member)).2.2.1]
      exact Bool.false_ne_true
    rw [List.reverse_append, List.find?_append, none_, Option.none_or]
  unfold Pace at h ⊢
  rw [same, turn]
  cases reader <;> first | trivial | exact ⟨hopeful h.1, h.2⟩

structure Paced (settings : Settings) (s : System F) : Prop where
  pace : Pace settings s.log s.stream.reader
  patient : History.Each (Patient settings) s.log

theorem Paced.turned (h : Paced settings s) (turned : Turned settings s s') : Paced settings s' := by
  rcases turned.ours with ⟨stream, entries, stepped, rfl⟩ | ⟨entries, ours, log, health, reader⟩
  · exact ⟨stepped.pace h.pace, h.patient.append (stepped.patient h.pace)⟩
  · constructor
    · rw [log, reader]
      exact pace_ours h.pace ours
    · rw [log]
      apply h.patient.append
      apply History.Extends.of_forall
      intro entry member before
      have := ours entry member
      cases entry <;> simp_all [Entry.ours, Patient]

/-- The reader tries again only after a start or a pause, and never once it has failed for good; the pause before a new
attempt doubles from the initial delay up to the longest, and is the initial one again after a start or a subscription
that lasted. -/
theorem reader_patient (settings : Settings) (wire : List (String × Json F) → Option WireUpdate)
    (acts : List (Act F)) :
    History.Each (Patient settings) (Machine.run (System.step settings wire) {} acts).log ∧ ∀ n,
      settings.initialDelay ≤ settings.delayAfter n ∧ settings.delayAfter n ≤ settings.maxDelay := by
  have paced : Paced settings (Machine.run (System.step settings wire) {} acts) :=
    run_turned (fun _ _ turned h => h.turned turned) ⟨trivial, .nil⟩ acts
  exact ⟨paced.patient, delayAfter_bounds settings⟩

end TradeAgent.OrderStream
