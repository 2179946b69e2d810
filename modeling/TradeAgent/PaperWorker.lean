import Mathlib.Logic.Function.Basic
import TradeAgent.EventEngine
import TradeAgent.Library.EventLog
import TradeAgent.Library.History
import TradeAgent.ShadowRecorder
import TradeAgent.WorkerLease

/-! The autonomous paper worker, as any number of processes on one database. Each takes the lease, fences, reconciles and
asks for its authorization before it releases the kill switch, and fences again on its way out. Every call of the
database and every wait is a step of its own; any may fail, before or after it took effect, and a process may die
between two. -/
namespace TradeAgent.PaperWorker

open Event (Calendar SessionGate)
open Shadow (StreamEvent)
open WorkerLease (WorkerLocks acquireWorkerLock refreshWorkerLock releaseWorkerLock)

structure Counters where
  events : ℕ := 0
  bars : ℕ := 0
  quotes : ℕ := 0
  trades : ℕ := 0
  closed : ℕ := 0

structure Heartbeat where
  instanceId : String
  state : String
  counters : Counters
  observedAt : Instant

/-- The lock table, the control `kill_switch` and the heartbeat of `tradeagent-worker`. -/
structure Repository where
  locks : WorkerLocks := []
  killSwitch : Option String := none
  heartbeat : Option Heartbeat := none

/-- What a process is started with. -/
structure Launch where
  instanceId : String
  calendar : Calendar
  enabled : Bool
  heartbeatMaxAge : ℤ
  barMaxAge : ℤ
  quoteMaxAge : ℤ

/-- Where a process stands: what it does next, from the lease to the release of it. -/
inductive Stage where
  | acquiring | fencing | greeting | greeted | reconciling | unhealthy | authorizing | releasing
  | beating | beaten | lost | waiting | stale | delivering (event : StreamEvent)
  | closing | parting | parted | unlocking | ended | dead

structure Thread where
  stage : Stage := .acquiring
  counters : Counters := {}

/-- A call that fails may have taken effect unheard. -/
inductive Reply where
  | done | failed | unheard
  deriving DecidableEq, Repr

/-- What a step meets outside: how its call ends, the clock, and what the broker, the registry and the stream say. -/
structure Answer where
  reply : Reply
  now : Instant
  healthy : Bool
  authorized : Bool
  incoming : Option StreamEvent

inductive Entry where
  | wrote (writer : Option ℕ) (value : String)
  | reconciled (worker : ℕ) (healthy : Bool)
  | authorized (worker : ℕ)
  | refreshed (worker : ℕ) (owned : Bool)
  | delivered (worker : ℕ) (event : StreamEvent) (canEnter : Bool) (at_ : Instant)

structure System where
  repository : Repository
  threads : ℕ → Thread
  log : List Entry

inductive Move where
  | step (worker : ℕ) (answer : Answer)
  | crash (worker : ℕ)
  | control (value : String)

def lockName : String := "tradeagent-paper-worker"

section source

variable (launch : Launch) (worker : ℕ)

def maximumAge : StreamEvent → ℤ
  | .bar _ => launch.barMaxAge
  | .quote _ | .trade _ => launch.quoteMaxAge

/-- In the future, or stale. -/
def freshnessProblem (event : StreamEvent) (observedAt : Instant) : Bool :=
  observedAt < event.timestamp || maximumAge launch event * second < observedAt - event.timestamp

def Counters.count (c : Counters) : StreamEvent → Counters
  | .bar _ => { c with bars := c.bars + 1 }
  | .quote _ => { c with quotes := c.quotes + 1 }
  | .trade _ => { c with trades := c.trades + 1 }

def setControl (value : String) (r : Repository) : Repository := { r with killSwitch := some value }

def beat (state : String) (t : Thread) (now : Instant) (r : Repository) : Repository :=
  { r with heartbeat := some ⟨launch.instanceId, state, t.counters, now⟩ }

def refresh (now : Instant) (r : Repository) : Repository :=
  { r with locks := (refreshWorkerLock r.locks lockName launch.instanceId now).1 }

def release (r : Repository) : Repository :=
  { r with locks := (releaseWorkerLock r.locks lockName launch.instanceId).1 }

/-- A call of the database, where the process goes on after it, and where if it raises. -/
def call (r : Repository) (t : Thread) (a : Answer) (effect : Repository → Repository) (entries : List Entry)
    (next otherwise : Stage) : Repository × Thread × List Entry :=
  match a.reply with
  | .done => (effect r, { t with stage := next }, entries)
  | .failed => (r, { t with stage := otherwise }, [])
  | .unheard => (effect r, { t with stage := otherwise }, entries)

/-- What comes next from the stream, or that it ended or is to stop. -/
def receive (r : Repository) (t : Thread) (a : Answer) : Repository × Thread × List Entry :=
  match a.incoming with
  | none => (r, { t with stage := .closing }, [])
  | some event =>
    let counters := { t.counters with events := t.counters.events + 1 }
    let gate := launch.calendar.gate event.timestamp
    if freshnessProblem launch event a.now then (r, ⟨.stale, counters⟩, [])
    else if gate.phase = .closed then (r, ⟨.beating, { counters with closed := counters.closed + 1 }⟩, [])
    else (r, ⟨.delivering event, counters⟩, [.delivered worker event gate.canEnter a.now])

def Thread.step (r : Repository) (t : Thread) (a : Answer) : Repository × Thread × List Entry :=
  match t.stage with
  | .acquiring =>
    let (locks, taken) := acquireWorkerLock r.locks lockName launch.instanceId (launch.heartbeatMaxAge * 2) a.now
    call r t a (fun r => { r with locks }) [] (if taken then .fencing else .ended) .ended
  | .fencing => call r t a (setControl "active") [.wrote worker "active"] .greeting .closing
  | .greeting => call r t a (refresh launch a.now) [] .greeted .closing
  | .greeted => call r t a (beat launch "starting" t a.now) [] .reconciling .closing
  | .reconciling =>
    if a.reply = .done then (r, { t with stage := if a.healthy then .authorizing else .unhealthy },
      [.reconciled worker a.healthy])
    else (r, { t with stage := .closing }, [])
  | .unhealthy | .lost | .stale => call r t a (setControl "active") [.wrote worker "active"] .closing .closing
  | .authorizing =>
    if launch.enabled ∧ a.reply = .done ∧ a.authorized then (r, { t with stage := .releasing }, [.authorized worker])
    else (r, { t with stage := .closing }, [])
  | .releasing => call r t a (setControl "inactive") [.wrote worker "inactive"] .beating .closing
  | .beating =>
    let owned := (refreshWorkerLock r.locks lockName launch.instanceId a.now).2
    call r t a (refresh launch a.now) [.refreshed worker owned] (if owned then .beaten else .lost) .closing
  | .beaten => call r t a (beat launch "running" t a.now) [] .waiting .closing
  | .waiting => if a.reply = .done then receive launch worker r t a else (r, { t with stage := .closing }, [])
  | .delivering event =>
    if a.reply = .done then (r, ⟨.beating, t.counters.count event⟩, []) else (r, { t with stage := .closing }, [])
  | .closing => call r t a (setControl "active") [.wrote worker "active"] .parting
      (if a.reply = .failed then .dead else .ended)
  | .parting => call r t a (refresh launch a.now) [] .parted .ended
  | .parted => call r t a (beat launch "stopped" t a.now) [] .unlocking .ended
  | .unlocking => call r t a (release launch) [] .ended .ended
  | .ended | .dead => (r, t, [])

/-- A process that dies before it has fenced on its way out leaves the switch as it is. -/
def Thread.crash (t : Thread) : Thread :=
  match t.stage with
  | .acquiring | .parting | .parted | .unlocking | .ended => { t with stage := .ended }
  | _ => { t with stage := .dead }

end source

def step (launches : ℕ → Launch) (s : System) : Move → System
  | .step worker a =>
    let (repository, thread, entries) := (s.threads worker).step (launches worker) worker s.repository a
    ⟨repository, Function.update s.threads worker thread, s.log ++ entries⟩
  | .crash worker => { s with threads := Function.update s.threads worker (s.threads worker).crash }
  | .control value => ⟨setControl value s.repository, s.threads, s.log ++ [.wrote none value]⟩

def run (launches : ℕ → Launch) (moves : List Move) : System :=
  Machine.run (step launches) ⟨{}, fun _ => {}, []⟩ moves

/-! ## What a step can do -/

/-- Within what a process closes behind itself. -/
def Stage.inside : Stage → Bool
  | .acquiring | .closing | .parting | .parted | .unlocking | .ended | .dead => false
  | _ => true

/-- On the way out, or gone, with the switch set. -/
def Stage.outside : Stage → Bool
  | .parting | .parted | .unlocking | .ended => true
  | _ => false

/-- A process may deliver an event: it is fresh, and of an open session. -/
structure Deliverable (launch : Launch) (event : StreamEvent) (canEnter : Bool) (at_ : Instant) : Prop where
  fresh : event.timestamp ≤ at_ ∧ at_ - event.timestamp ≤ maximumAge launch event * second
  inSession : (launch.calendar.gate event.timestamp).phase ≠ .closed
  entry : canEnter = (launch.calendar.gate event.timestamp).canEnter

/-- How a process goes on, and what it leaves in the log. -/
inductive Turned (launch : Launch) (worker : ℕ) : Stage → List Entry → Stage → Prop where
  | acquired : Turned launch worker .acquiring [] .fencing
  | refused : Turned launch worker .acquiring [] .ended
  | fenced : Turned launch worker .fencing [.wrote worker "active"] .greeting
  | greeted : Turned launch worker .greeting [] .greeted
  | recorded : Turned launch worker .greeted [] .reconciling
  | reconciled : Turned launch worker .reconciling [.reconciled worker true] .authorizing
  | mismatched : Turned launch worker .reconciling [.reconciled worker false] .unhealthy
  | authorized : Turned launch worker .authorizing [.authorized worker] .releasing
  | released : Turned launch worker .releasing [.wrote worker "inactive"] .beating
  | held : Turned launch worker .beating [.refreshed worker true] .beaten
  | lost : Turned launch worker .beating [.refreshed worker false] .lost
  | beaten : Turned launch worker .beaten [] .waiting
  | skipped : Turned launch worker .waiting [] .beating
  | stale : Turned launch worker .waiting [] .stale
  | delivers {event canEnter at_} (may : Deliverable launch event canEnter at_) :
      Turned launch worker .waiting [.delivered worker event canEnter at_] (.delivering event)
  | processed {event} : Turned launch worker (.delivering event) [] .beating
  | raises {stage} (inside : stage.inside = true) : Turned launch worker stage [] .closing
  | alarms {stage} (inside : stage.inside = true) : Turned launch worker stage [.wrote worker "active"] .closing
  | releasedUnheard : Turned launch worker .releasing [.wrote worker "inactive"] .closing
  | refreshedUnheard (owned) : Turned launch worker .beating [.refreshed worker owned] .closing
  | closes {stage} (gone : stage.outside = true) : Turned launch worker .closing [.wrote worker "active"] stage
  | dies {stage} : Turned launch worker stage [] .dead
  | parts {stage stage'} (before : stage.outside = true) (after : stage'.outside = true) :
      Turned launch worker stage [] stage'
  | quits : Turned launch worker .acquiring [] .ended

theorem receive_turned (launch : Launch) (worker : ℕ) (r : Repository) (t : Thread) (a : Answer) :
    Turned launch worker .waiting (receive launch worker r t a).2.2 (receive launch worker r t a).2.1.stage := by
  unfold receive
  cases a.incoming with
  | none => exact .raises rfl
  | some event =>
    by_cases problem : freshnessProblem launch event a.now = true
    · simp only [problem, if_true]
      exact .stale
    · by_cases closed : (launch.calendar.gate event.timestamp).phase = .closed
      · simp only [problem, closed, if_true]
        exact .skipped
      · simp only [problem, closed]
        refine .delivers ⟨?_, closed, rfl⟩
        simpa [freshnessProblem] using problem

theorem call_turned {launch : Launch} {worker : ℕ} {stage next otherwise : Stage} {entries : List Entry}
    (r : Repository) (t : Thread) (a : Answer) (effect : Repository → Repository)
    (done : Turned launch worker stage entries next) (failed : a.reply = .failed → Turned launch worker stage [] otherwise)
    (unheard : a.reply = .unheard → Turned launch worker stage entries otherwise) :
    Turned launch worker stage (call r t a effect entries next otherwise).2.2
      (call r t a effect entries next otherwise).2.1.stage := by
  unfold call
  cases reply : a.reply with
  | done => exact done
  | failed => exact failed reply
  | unheard => exact unheard reply

theorem step_turned (launch : Launch) (worker : ℕ) (r : Repository) (t : Thread) (a : Answer) :
    Turned launch worker t.stage (t.step launch worker r a).2.2 (t.step launch worker r a).2.1.stage := by
  unfold Thread.step
  cases at_ : t.stage with
  | acquiring =>
    generalize acquireWorkerLock r.locks lockName launch.instanceId (launch.heartbeatMaxAge * 2) a.now = answer
    obtain ⟨locks, taken⟩ := answer
    refine call_turned r t a _ ?_ (fun _ => .quits) (fun _ => .quits)
    cases taken
    · exact .refused
    · exact .acquired
  | fencing => exact call_turned r t a _ .fenced (fun _ => .raises rfl) (fun _ => .alarms rfl)
  | greeting => exact call_turned r t a _ .greeted (fun _ => .raises rfl) (fun _ => .raises rfl)
  | greeted => exact call_turned r t a _ .recorded (fun _ => .raises rfl) (fun _ => .raises rfl)
  | reconciling =>
    by_cases done : a.reply = .done
    · simp only [done, if_true]
      cases a.healthy
      · exact .mismatched
      · exact .reconciled
    · simp only [done, if_false]
      exact .raises rfl
  | unhealthy => exact call_turned r t a _ (.alarms rfl) (fun _ => .raises rfl) (fun _ => .alarms rfl)
  | authorizing =>
    dsimp only
    split
    · exact .authorized
    · exact .raises rfl
  | releasing => exact call_turned r t a _ .released (fun _ => .raises rfl) (fun _ => .releasedUnheard)
  | beating =>
    refine call_turned r t a _ ?_ (fun _ => .raises rfl) (fun _ => .refreshedUnheard _)
    cases (refreshWorkerLock r.locks lockName launch.instanceId a.now).2
    · exact .lost
    · exact .held
  | beaten => exact call_turned r t a _ .beaten (fun _ => .raises rfl) (fun _ => .raises rfl)
  | lost => exact call_turned r t a _ (.alarms rfl) (fun _ => .raises rfl) (fun _ => .alarms rfl)
  | waiting =>
    dsimp only
    split
    · exact receive_turned launch worker r t a
    · exact .raises rfl
  | stale => exact call_turned r t a _ (.alarms rfl) (fun _ => .raises rfl) (fun _ => .alarms rfl)
  | delivering event =>
    dsimp only
    split
    · exact .processed
    · exact .raises rfl
  | closing =>
    refine call_turned r t a _ (.closes rfl) ?_ ?_
    · intro failed
      rw [if_pos failed]
      exact .dies
    · intro unheard
      rw [unheard, if_neg Reply.noConfusion]
      exact .closes rfl
  | parting => exact call_turned r t a _ (.parts rfl rfl) (fun _ => .parts rfl rfl) (fun _ => .parts rfl rfl)
  | parted => exact call_turned r t a _ (.parts rfl rfl) (fun _ => .parts rfl rfl) (fun _ => .parts rfl rfl)
  | unlocking => exact call_turned r t a _ (.parts rfl rfl) (fun _ => .parts rfl rfl) (fun _ => .parts rfl rfl)
  | ended =>
    simp only [at_]
    exact .parts rfl rfl
  | dead =>
    simp only [at_]
    exact .dies

theorem crash_turned (launch : Launch) (worker : ℕ) (t : Thread) : Turned launch worker t.stage [] t.crash.stage := by
  unfold Thread.crash
  cases t.stage with
  | acquiring => exact .quits
  | parting => exact .parts rfl rfl
  | parted => exact .parts rfl rfl
  | unlocking => exact .parts rfl rfl
  | ended => exact .parts rfl rfl
  | _ => exact .dies

/-! ## The switch -/

/-- The switch may be off by this process: it has released it and not fenced since, or it died before it could. -/
def Stage.armed : Stage → Bool
  | .beating | .beaten | .lost | .waiting | .stale | .delivering _ | .closing | .dead => true
  | _ => false

/-- Who wrote the switch, and what. -/
def Entry.write : Entry → Option (Unit × (Option ℕ × String))
  | .wrote writer value => some ((), writer, value)
  | _ => none

def lastWrite (log : List Entry) : Option (Option ℕ × String) := EventLog.latest Entry.write log ()

/-- A process writes last, or leaves the last write as it was. -/
theorem Turned.lastWrite {launch : Launch} {worker : ℕ} {stage stage' : Stage} {entries : List Entry}
    (h : Turned launch worker stage entries stage') (log : List Entry) :
    lastWrite (log ++ entries) = some (some worker, "active") ∨
      lastWrite (log ++ entries) = some (some worker, "inactive") ∧ stage'.armed = true ∨
      lastWrite (log ++ entries) = lastWrite log ∧ (stage.armed = true → stage'.armed = true) := by
  simp only [PaperWorker.lastWrite, EventLog.latest_append]
  cases h with
  | raises inside => exact .inr (.inr ⟨rfl, fun _ => rfl⟩)
  | alarms inside => exact .inl rfl
  | closes gone => exact .inl rfl
  | parts before after =>
    refine .inr (.inr ⟨rfl, fun armed => ?_⟩)
    cases stage <;> simp [Stage.outside, Stage.armed] at before armed
  | releasedUnheard => exact .inr (.inl ⟨rfl, rfl⟩)
  | released => exact .inr (.inl ⟨rfl, rfl⟩)
  | fenced => exact .inl rfl
  | _ => exact .inr (.inr ⟨rfl, fun armed => by first | rfl | cases armed⟩)

theorem call_killSwitch (r : Repository) (t : Thread) (a : Answer) {effect : Repository → Repository}
    {entries : List Entry} {next otherwise : Stage}
    (effects : (effect r).killSwitch = ((lastWrite entries).map Prod.snd).or r.killSwitch) :
    (call r t a effect entries next otherwise).1.killSwitch =
      ((lastWrite (call r t a effect entries next otherwise).2.2).map Prod.snd).or r.killSwitch := by
  unfold call
  cases a.reply with
  | done => exact effects
  | failed => rfl
  | unheard => exact effects

/-- The switch is what the step wrote, if it wrote. -/
theorem step_killSwitch (launch : Launch) (worker : ℕ) (r : Repository) (t : Thread) (a : Answer) :
    (t.step launch worker r a).1.killSwitch =
      ((lastWrite (t.step launch worker r a).2.2).map Prod.snd).or r.killSwitch := by
  unfold Thread.step
  cases t.stage with
  | reconciling =>
    dsimp only
    split <;> rfl
  | authorizing =>
    dsimp only
    split <;> rfl
  | delivering event =>
    dsimp only
    split <;> rfl
  | waiting =>
    simp only [receive]
    split
    · cases a.incoming with
      | none => rfl
      | some event =>
        dsimp only
        split
        · rfl
        · split <;> rfl
    · rfl
  | ended => rfl
  | dead => rfl
  | _ => exact call_killSwitch r t a rfl

/-- The switch is as it was written last; if a process turned it off last, that process has not fenced since. -/
structure Switched (s : System) : Prop where
  held : s.repository.killSwitch = (lastWrite s.log).map Prod.snd
  armed : ∀ worker, lastWrite s.log = some (some worker, "inactive") → (s.threads worker).stage.armed = true

theorem lastWrite_append (log entries : List Entry) : lastWrite (log ++ entries) = (lastWrite entries).or (lastWrite log) :=
  EventLog.latest_append log entries ()

theorem Switched.turned {s : System} (h : Switched s) {launch : Launch} {worker : ℕ} {r : Repository} {t : Thread}
    {entries : List Entry} (turned : Turned launch worker (s.threads worker).stage entries t.stage)
    (switch : r.killSwitch = ((lastWrite entries).map Prod.snd).or s.repository.killSwitch) :
    Switched ⟨r, Function.update s.threads worker t, s.log ++ entries⟩ := by
  constructor
  · rw [switch, h.held, lastWrite_append]
    cases lastWrite entries <;> rfl
  · intro other last
    rcases turned.lastWrite s.log with set | ⟨cleared, armed⟩ | ⟨same, armed⟩
    · rw [set] at last
      simp at last
    · rw [cleared] at last
      obtain rfl : worker = other := by simpa using last
      simpa using armed
    · rw [same] at last
      by_cases own : other = worker
      · subst own
        simpa using armed (h.armed other last)
      · simpa [Function.update_of_ne own] using h.armed other last

theorem step_switched (launches : ℕ → Launch) (s : System) (move : Move) (h : Switched s) :
    Switched (step launches s move) := by
  cases move with
  | step worker a =>
    exact h.turned (step_turned (launches worker) worker s.repository (s.threads worker) a)
      (step_killSwitch (launches worker) worker s.repository (s.threads worker) a)
  | crash worker =>
    have next := h.turned (crash_turned (launches worker) worker (s.threads worker)) (r := s.repository) rfl
    rwa [List.append_nil] at next
  | control value =>
    constructor
    · simp [step, setControl, lastWrite, EventLog.latest, EventLog.about, Entry.write]
    · intro worker last
      simp [step, lastWrite, EventLog.latest, EventLog.about, Entry.write] at last

end TradeAgent.PaperWorker
