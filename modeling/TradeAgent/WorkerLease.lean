import TradeAgent.Domain
import TradeAgent.Library.Machine
import Mathlib.Data.List.Basic

/-! The locks of the workers: a table with one row for each lock, whose owner keeps it by refreshing it and
loses it to another once it has gone stale. Each call is one transaction. -/
namespace TradeAgent.WorkerLease

structure WorkerLock where
  lockName : String
  ownerId : String
  acquiredAt : Instant
  deriving DecidableEq, Repr

abbrev WorkerLocks := List WorkerLock

inductive IntegrityError where
  | duplicateKey
  deriving DecidableEq, Repr

/-- The primary key is the name of the lock. -/
def insert (locks : WorkerLocks) (lock : WorkerLock) : Except IntegrityError WorkerLocks :=
  if locks.any fun other => other.lockName = lock.lockName then .error .duplicateKey
  else .ok (lock :: locks)

def acquireWorkerLock (locks : WorkerLocks) (lockName ownerId : String) (staleAfterSeconds : ℤ)
    (now : Instant) : WorkerLocks × Bool :=
  let taken (cleared : WorkerLocks) : WorkerLocks × Bool :=
    match insert cleared ⟨lockName, ownerId, now⟩ with
    | .ok locks => (locks, true)
    | .error _ => (locks, false)
  match locks.find? fun lock => lock.lockName = lockName with
  | some current =>
    if now - current.acquiredAt ≤ staleAfterSeconds * 1000000 then (locks, false)
    else taken (locks.filter fun lock => lock.lockName ≠ lockName)
  | none => taken locks

/-- The row of the lock, where it has this owner. -/
def WorkerLock.ownedBy (lock : WorkerLock) (lockName ownerId : String) : Bool :=
  lock.lockName = lockName && lock.ownerId = ownerId

def refreshWorkerLock (locks : WorkerLocks) (lockName ownerId : String) (now : Instant) :
    WorkerLocks × Bool :=
  (locks.map fun lock => if lock.ownedBy lockName ownerId then { lock with acquiredAt := now } else lock,
    locks.any fun lock => lock.ownedBy lockName ownerId)

def releaseWorkerLock (locks : WorkerLocks) (lockName ownerId : String) : WorkerLocks × Bool :=
  (locks.filter fun lock => !lock.ownedBy lockName ownerId,
    locks.any fun lock => lock.ownedBy lockName ownerId)

inductive Call where
  | acquire (lockName ownerId : String) (staleAfterSeconds : ℤ) (now : Instant)
  | refresh (lockName ownerId : String) (now : Instant)
  | release (lockName ownerId : String)
  deriving DecidableEq, Repr

def perform (locks : WorkerLocks) : Call → WorkerLocks × Bool
  | .acquire lockName ownerId staleAfterSeconds now =>
    acquireWorkerLock locks lockName ownerId staleAfterSeconds now
  | .refresh lockName ownerId now => refreshWorkerLock locks lockName ownerId now
  | .release lockName ownerId => releaseWorkerLock locks lockName ownerId

def step (locks : WorkerLocks) (call : Call) : WorkerLocks := (perform locks call).1

def run (calls : List Call) : WorkerLocks := Machine.run step [] calls

def Holds (locks : WorkerLocks) (lockName ownerId : String) : Prop :=
  ∃ lock ∈ locks, lock.lockName = lockName ∧ lock.ownerId = ownerId

/-! ## What a call does -/

/-- One row for each lock. -/
def Keyed (locks : WorkerLocks) : Prop := (locks.map WorkerLock.lockName).Nodup

variable {locks : WorkerLocks} {lockName ownerId : String} {call : Call}

theorem Keyed.eq (keyed : Keyed locks) {one two : WorkerLock} (first : one ∈ locks) (second : two ∈ locks)
    (same : one.lockName = two.lockName) : one = two :=
  List.inj_on_of_nodup_map keyed first second same

theorem ownedBy_iff (lock : WorkerLock) :
    lock.ownedBy lockName ownerId = true ↔ lock.lockName = lockName ∧ lock.ownerId = ownerId := by
  simp [WorkerLock.ownedBy]

theorem holds_iff : Holds locks lockName ownerId ↔
    (locks.any fun lock => lock.ownedBy lockName ownerId) = true := by
  simp [Holds, ownedBy_iff]

theorem insert_cleared (locks : WorkerLocks) (lock : WorkerLock) :
    insert (locks.filter fun other => other.lockName ≠ lock.lockName) lock =
      .ok (lock :: locks.filter fun other => other.lockName ≠ lock.lockName) := by
  simp [insert]

/-- An acquisition takes a lock that nobody holds, or one gone stale, or changes nothing. -/
theorem acquire_cases (locks : WorkerLocks) (lockName ownerId : String) (staleAfterSeconds : ℤ) (now : Instant) :
    (acquireWorkerLock locks lockName ownerId staleAfterSeconds now = (locks, false) ∧
      ∃ lock ∈ locks, lock.lockName = lockName) ∨
    (acquireWorkerLock locks lockName ownerId staleAfterSeconds now =
      (⟨lockName, ownerId, now⟩ :: locks.filter fun lock => lock.lockName ≠ lockName, true) ∧
      ∀ lock, locks.find? (fun lock => lock.lockName = lockName) = some lock →
        staleAfterSeconds * 1000000 < now - lock.acquiredAt) := by
  cases found : locks.find? (fun lock => lock.lockName = lockName) with
  | none =>
    have absent : ∀ lock ∈ locks, lock.lockName ≠ lockName := by simpa using found
    have kept : (locks.filter fun lock => lock.lockName ≠ lockName) = locks := by
      rw [List.filter_eq_self]
      simpa using absent
    refine .inr ⟨?_, nofun⟩
    have inserted := insert_cleared locks ⟨lockName, ownerId, now⟩
    simp only [kept] at inserted
    simp only [acquireWorkerLock, found, inserted, kept]
  | some current =>
    have named : current.lockName = lockName := by simpa using List.find?_some found
    by_cases young : now - current.acquiredAt ≤ staleAfterSeconds * 1000000
    · refine .inl ⟨by simp [acquireWorkerLock, found, young], current, List.mem_of_find?_eq_some found, named⟩
    · refine .inr ⟨?_, fun lock same => ?_⟩
      · simp only [acquireWorkerLock, found, young, if_false,
          insert_cleared locks ⟨lockName, ownerId, now⟩]
      · obtain rfl := Option.some.inj same
        exact not_le.mp young

theorem step_keyed (keyed : Keyed locks) (call : Call) : Keyed (step locks call) := by
  cases call with
  | acquire lockName ownerId staleAfterSeconds now =>
    rcases acquire_cases locks lockName ownerId staleAfterSeconds now with ⟨same, -⟩ | ⟨taken, -⟩
    · simpa [step, perform, same] using keyed
    · have others : Keyed (locks.filter fun lock => lock.lockName ≠ lockName) :=
        keyed.sublist (List.filter_sublist.map _)
      simp only [step, perform, taken, Keyed, List.map_cons, List.nodup_cons]
      exact ⟨by simp, others⟩
  | refresh lockName ownerId now =>
    have names : (step locks (.refresh lockName ownerId now)).map WorkerLock.lockName =
        locks.map WorkerLock.lockName := by
      simp only [step, perform, refreshWorkerLock, List.map_map]
      refine List.map_congr_left fun lock _ => ?_
      by_cases owned : lock.ownedBy lockName ownerId <;> simp [owned]
    simpa [Keyed, names] using keyed
  | release lockName ownerId => exact keyed.sublist (List.filter_sublist.map _)

theorem run_keyed (calls : List Call) : Keyed (run calls) := by
  have empty : Keyed [] := List.nodup_nil
  apply Machine.run_invariant _ empty calls
  intro locks call keyed
  exact step_keyed keyed call

/-- Whoever does not hold the lock changes nothing by refreshing it. -/
theorem refresh_other (other : ¬Holds locks lockName ownerId) (now : Instant) :
    refreshWorkerLock locks lockName ownerId now = (locks, false) := by
  rw [holds_iff, Bool.not_eq_true] at other
  have apart : ∀ lock ∈ locks, lock.ownedBy lockName ownerId = false := by simpa using other
  have same : (locks.map fun lock => if lock.ownedBy lockName ownerId then { lock with acquiredAt := now }
      else lock) = locks := by
    conv_rhs => rw [← List.map_id locks]
    exact List.map_congr_left fun lock member => by simp [apart lock member]
  simp only [refreshWorkerLock, same, other]

theorem release_other (other : ¬Holds locks lockName ownerId) :
    releaseWorkerLock locks lockName ownerId = (locks, false) := by
  rw [holds_iff, Bool.not_eq_true] at other
  have apart : ∀ lock ∈ locks, lock.ownedBy lockName ownerId = false := by simpa using other
  have same : (locks.filter fun lock => !lock.ownedBy lockName ownerId) = locks :=
    List.filter_eq_self.mpr fun lock member => by simp [apart lock member]
  simp only [releaseWorkerLock, same, other]

/-- A row after a refresh is a row before it, but for the time. -/
theorem mem_refresh {now : Instant} {after : WorkerLock}
    (member : after ∈ (refreshWorkerLock locks lockName ownerId now).1) :
    ∃ lock ∈ locks, after.lockName = lock.lockName ∧ after.ownerId = lock.ownerId ∧
      (lock.ownedBy lockName ownerId = true ∧ after.acquiredAt = now ∨
        lock.ownedBy lockName ownerId = false ∧ after = lock) := by
  obtain ⟨lock, found, rfl⟩ := List.mem_map.mp member
  refine ⟨lock, found, ?_⟩
  by_cases owned : lock.ownedBy lockName ownerId <;> simp [owned]

theorem holds_refresh (now : Instant) (name owner : String) :
    Holds (refreshWorkerLock locks lockName ownerId now).1 name owner ↔ Holds locks name owner := by
  constructor
  · rintro ⟨after, member, rfl, rfl⟩
    obtain ⟨lock, found, named, owned, -⟩ := mem_refresh member
    exact ⟨lock, found, named.symm, owned.symm⟩
  · rintro ⟨lock, found, rfl, rfl⟩
    refine ⟨_, List.mem_map_of_mem found, ?_⟩
    by_cases owned : lock.ownedBy lockName ownerId <;> simp [owned]

theorem holds_release (name owner : String) : Holds (releaseWorkerLock locks lockName ownerId).1 name owner ↔
    Holds locks name owner ∧ ¬(name = lockName ∧ owner = ownerId) := by
  simp only [Holds, releaseWorkerLock, List.mem_filter, Bool.not_eq_true', ← Bool.not_eq_true, ownedBy_iff]
  constructor
  · rintro ⟨lock, ⟨found, apart⟩, rfl, rfl⟩
    exact ⟨⟨lock, found, rfl, rfl⟩, apart⟩
  · rintro ⟨⟨lock, found, rfl, rfl⟩, apart⟩
    exact ⟨lock, ⟨found, apart⟩, rfl, rfl⟩

/-! ## Runs -/

/-- When the lock was last taken or refreshed, from the calls and what they reported. -/
def lastRefresh (lockName : String) : WorkerLocks → Option Instant → List Call → Option Instant
  | _, last, [] => last
  | locks, last, call :: rest =>
    let (after, reported) := perform locks call
    lastRefresh lockName after
      (match call with
        | .acquire name _ _ now | .refresh name _ now => if name = lockName ∧ reported then some now else last
        | .release .. => last) rest

/-- The row of the lock keeps the time it was last taken or refreshed. -/
theorem lastRefresh_eq {last : Option Instant} (keyed : Keyed locks)
    (kept : ∀ lock ∈ locks, lock.lockName = lockName → last = some lock.acquiredAt) (calls : List Call) :
    ∀ lock ∈ Machine.run step locks calls, lock.lockName = lockName →
      lastRefresh lockName locks last calls = some lock.acquiredAt := by
  induction calls generalizing locks last with
  | nil => exact kept
  | cons call rest ih =>
    refine ih (step_keyed keyed call) fun lock member named => ?_
    cases call with
    | acquire name owner staleAfterSeconds now =>
      rcases acquire_cases locks name owner staleAfterSeconds now with ⟨same, -⟩ | ⟨taken, -⟩
      · simp only [step, perform, same] at member
        simpa [perform, same] using kept lock member named
      · simp only [step, perform, taken, List.mem_cons, List.mem_filter] at member
        rcases member with rfl | ⟨old, apart⟩
        · simp_all
        · have other : name ≠ lockName := by
            rintro rfl
            simp [named] at apart
          simpa [perform, taken, other] using kept lock old named
    | refresh name owner now =>
      obtain ⟨old, found, same, -, ⟨owned, at_⟩ | ⟨apart, rfl⟩⟩ := mem_refresh member
      · have ours : name = lockName := ((ownedBy_iff old).mp owned).1.symm.trans (same.symm.trans named)
        have reported : (perform locks (.refresh name owner now)).2 = true :=
          List.any_eq_true.mpr ⟨old, found, owned⟩
        dsimp only
        rw [if_pos ⟨ours, reported⟩, at_]
      · by_cases ours : name = lockName
        · have free : (locks.any fun lock => lock.ownedBy name owner) = false := by
            rw [List.any_eq_false]
            intro other member owned
            have alike := keyed.eq member found (((ownedBy_iff other).mp owned).1.trans (ours.trans named.symm))
            simp [← alike, owned] at apart
          simpa [perform, refreshWorkerLock, free] using kept lock found named
        · simpa [perform, ours] using kept lock found named
    | release name owner => exact kept lock (List.mem_filter.mp member).1 named

/-- A lock passes to another owner only when that one acquires it after it has gone stale. -/
theorem taken_over (keyed : Keyed locks) {a b : String} (held : Holds locks lockName a)
    (now_ : Holds (step locks call) lockName b) (other : b ≠ a) : ∃ staleAfterSeconds now,
      call = .acquire lockName b staleAfterSeconds now ∧ ∃ lock ∈ locks, lock.lockName = lockName ∧
        staleAfterSeconds * 1000000 < now - lock.acquiredAt := by
  obtain ⟨lock, member, named, owned⟩ := held
  have alone : ¬Holds locks lockName b := by
    rintro ⟨two, second, same, owns⟩
    exact other (owns.symm.trans (keyed.eq second member (same.trans named.symm) ▸ owned))
  cases call with
  | acquire name owner staleAfterSeconds now =>
    rcases acquire_cases locks name owner staleAfterSeconds now with ⟨same, -⟩ | ⟨taken, stale⟩
    · simp only [step, perform, same] at now_
      exact absurd now_ alone
    · obtain ⟨new, found, same, owns⟩ := now_
      simp only [step, perform, taken, List.mem_cons, List.mem_filter] at found
      rcases found with rfl | ⟨old, -⟩
      · have ours : name = lockName := same
        have whose : owner = b := owns
        subst ours whose
        have first : locks.find? (fun lock => lock.lockName = name) = some lock := by
          cases found : locks.find? (fun lock => lock.lockName = name) with
          | none => exact absurd named (by simpa using List.find?_eq_none.mp found lock member)
          | some current =>
            have here : current.lockName = name := by simpa using List.find?_some found
            rw [keyed.eq (List.mem_of_find?_eq_some found) member (here.trans named.symm)]
        exact ⟨staleAfterSeconds, now, rfl, lock, member, named, stale lock first⟩
      · exact absurd ⟨new, old, same, owns⟩ alone
  | refresh name owner now => exact absurd ((holds_refresh now lockName b).mp now_) alone
  | release name owner => exact absurd ((holds_release lockName b).mp now_).1 alone

/-- A lock is let go of by its owner's release alone. -/
theorem released {a : String} (held : Holds locks lockName a)
    (free : ∀ b, ¬Holds (step locks call) lockName b) :
    call = .release lockName a ∧ (perform locks call).2 = true := by
  cases call with
  | acquire name owner staleAfterSeconds now =>
    exfalso
    rcases acquire_cases locks name owner staleAfterSeconds now with ⟨same, -⟩ | ⟨taken, -⟩
    · exact free a (by simpa [step, perform, same] using held)
    · by_cases ours : name = lockName
      · exact free owner ⟨⟨name, owner, now⟩, by simp [step, perform, taken], ours, rfl⟩
      · obtain ⟨lock, member, rfl, rfl⟩ := held
        have apart : lock.lockName ≠ name := fun same => ours same.symm
        exact free lock.ownerId ⟨lock, by simp [step, perform, taken, member, apart], rfl, rfl⟩
  | refresh name owner now => exact absurd ((holds_refresh now lockName a).mpr held) (free a)
  | release name owner =>
    by_cases ours : lockName = name ∧ a = owner
    · obtain ⟨rfl, rfl⟩ := ours
      exact ⟨rfl, holds_iff.mp held⟩
    · exact absurd ((holds_release lockName a).mpr ⟨held, ours⟩) (free a)

/-- Whoever does not hold the lock does not come to hold it without acquiring it. -/
theorem not_regained (keyed : Keyed locks) {a : String} (lost : ¬Holds locks lockName a) (calls : List Call)
    (never : ∀ staleAfterSeconds now, .acquire lockName a staleAfterSeconds now ∉ calls) :
    ¬Holds (Machine.run step locks calls) lockName a := by
  induction calls generalizing locks with
  | nil => exact lost
  | cons call rest ih =>
    refine ih (step_keyed keyed call) ?_ fun staleAfterSeconds now member =>
      never staleAfterSeconds now (List.mem_cons_of_mem call member)
    intro regained
    cases call with
    | acquire name owner staleAfterSeconds now =>
      rcases acquire_cases locks name owner staleAfterSeconds now with ⟨same, -⟩ | ⟨taken, -⟩
      · exact lost (by simpa [step, perform, same] using regained)
      · obtain ⟨lock, member, named, owned⟩ := regained
        simp only [step, perform, taken, List.mem_cons, List.mem_filter] at member
        rcases member with rfl | ⟨old, -⟩
        · have ours : name = lockName := named
          have whose : owner = a := owned
          subst ours whose
          exact never staleAfterSeconds now List.mem_cons_self
        · exact lost ⟨lock, old, named, owned⟩
    | refresh name owner now => exact lost ((holds_refresh now lockName a).mp regained)
    | release name owner => exact lost ((holds_release lockName a).mp regained).1

/-- What the lock guarantees after any calls: one owner, who loses it to another only when it has not been
refreshed for longer than the limit, and whom nobody else's refresh or release touches. -/
theorem lease_exclusive (calls : List Call) (lockName : String) :
    (∀ a b, Holds (run calls) lockName a → Holds (run calls) lockName b → a = b) ∧
    (∀ call a b, Holds (run calls) lockName a → Holds (step (run calls) call) lockName b → b ≠ a →
      ∃ staleAfterSeconds now last, call = .acquire lockName b staleAfterSeconds now ∧
        lastRefresh lockName [] none calls = some last ∧ staleAfterSeconds * 1000000 < now - last) ∧
    (∀ call a, Holds (run calls) lockName a → (∀ b, ¬Holds (step (run calls) call) lockName b) →
      call = .release lockName a ∧ (perform (run calls) call).2 = true) ∧
    (∀ a, ¬Holds (run calls) lockName a →
      (∀ now, perform (run calls) (.refresh lockName a now) = (run calls, false)) ∧
      perform (run calls) (.release lockName a) = (run calls, false) ∧
      ∀ later, (∀ staleAfterSeconds now, .acquire lockName a staleAfterSeconds now ∉ later) →
        ¬Holds (run (calls ++ later)) lockName a) := by
  have keyed := run_keyed calls
  refine ⟨?_, fun call a b held now_ other => ?_, fun call a => released, fun a lost =>
    ⟨refresh_other lost, release_other lost, fun later never => ?_⟩⟩
  · rintro a b ⟨one, first, named, rfl⟩ ⟨two, second, same, rfl⟩
    rw [keyed.eq first second (named.trans same.symm)]
  · obtain ⟨staleAfterSeconds, now, rfl, lock, member, named, stale⟩ := taken_over keyed held now_ other
    have empty : Keyed [] := List.nodup_nil
    exact ⟨staleAfterSeconds, now, lock.acquiredAt, rfl, lastRefresh_eq empty nofun calls lock member named, stale⟩
  · unfold run
    rw [Machine.run_append]
    exact not_regained keyed lost later never

end TradeAgent.WorkerLease
