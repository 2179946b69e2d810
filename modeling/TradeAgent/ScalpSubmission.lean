import TradeAgent.ScalpDispatch

/-! At most one submission of each order. The claim is the only way to the broker call and
nothing restores an intent, so two threads never hold one claim; but a pass that read the
intent before the claim still expires the order after it. -/
namespace TradeAgent.Scalp

open Interleaving

/-- The order a thread has claimed and not yet handed over or given up. -/
def Task.claimed : Task → Option String
  | .fencing clientId _ | .submitting clientId | .unsent clientId => some clientId
  | _ => none

/-- The claimed order a thread may still hand to the broker. -/
def Task.bound : Task → Option String
  | .fencing clientId _ | .submitting clientId => some clientId
  | _ => none

theorem Task.claimed_of_bound {task : Task} {clientId : String} (bound : task.bound = some clientId) :
    task.claimed = some clientId := by
  cases task <;> first | exact bound | cases bound

def Store.Started (s : Store) (clientId : String) : Prop :=
  ∃ row, s.orders.get? clientId = some row ∧ row.dispatchState ≠ .intent

/-- A transaction that has no effect and takes no order back to its intent. -/
structure Store.Keeps (s s' : Store) : Prop where
  log : s'.log = s.log
  started : ∀ clientId, s.Started clientId → s'.Started clientId

theorem Store.Keeps.refl (s : Store) : s.Keeps s := ⟨rfl, fun _ started => started⟩

/-- All that a transaction can do to the orders and the effects. -/
inductive Transacted (s : Store) : Task → Store × Option Task → Prop
  | quiet (task : Task) {s' : Store} {next : Option Task} (keeps : s.Keeps s')
      (unclaimed : ∀ t ∈ next, t.claimed = none) : Transacted s task (s', next)
  | claimed {clientId : String} {row : OwnedOrder} (now : Instant)
      (stored : s.orders.get? clientId = some row) (intended : row.dispatchState = .intent) :
      Transacted s (.claiming clientId) ({ s with orders := s.orders.set clientId (row.claim now) },
        some (.fencing clientId (row.claim now)))
  | fenced (clientId : String) (row : OwnedOrder) {next : Task}
      (either : next = .submitting clientId ∨ next = .unsent clientId) :
      Transacted s (.fencing clientId row) (s, some next)
  | submitted (clientId : String) {next : Option Task} (unclaimed : ∀ t ∈ next, t.claimed = none) :
      Transacted s (.submitting clientId) ({ s with log := .submitted clientId :: s.log }, next)
  | expired {task : Task} {clientId : String} (now : Instant) (reason : Option String)
      (own : task = .expiring clientId ∨ task.claimed = some clientId) :
      Transacted s task (s.expireUnsent clientId now reason, none)

section Rows

variable {s : Store} {clientId : String}

/-- Writing a row keeps every order started, as long as it takes none back to its intent. -/
theorem Store.keeps_orders {orders : Dict String OwnedOrder}
    (rows : ∀ other row, s.orders.get? other = some row → row.dispatchState ≠ .intent →
      ∃ row', orders.get? other = some row' ∧ row'.dispatchState ≠ .intent) :
    s.Keeps { s with orders := orders } where
  log := rfl
  started other := fun ⟨row, stored, started⟩ => rows other row stored started

theorem Store.keeps_set {next : OwnedOrder}
    (started : ∀ row, s.orders.get? clientId = some row → row.dispatchState ≠ .intent →
      next.dispatchState ≠ .intent) :
    s.Keeps { s with orders := s.orders.set clientId next } := by
  refine Store.keeps_orders fun other row stored away => ?_
  by_cases here : clientId = other
  · subst here
    exact ⟨next, by simp, started row stored away⟩
  · exact ⟨row, by simp [here, stored], away⟩

theorem Store.keeps_modify {change : OwnedOrder → OwnedOrder}
    (started : ∀ row, row.dispatchState ≠ .intent → (change row).dispatchState ≠ .intent) :
    s.Keeps { s with orders := s.orders.modify clientId change } := by
  refine Store.keeps_orders fun other row stored away => ?_
  by_cases here : clientId = other
  · exact ⟨change row, by simp [Dict.get?_modify, here, stored], started row away⟩
  · exact ⟨row, by simp [Dict.get?_modify, here, stored], away⟩

theorem Store.keeps_setDefault (fresh : OwnedOrder) :
    s.Keeps { s with orders := s.orders.setDefault clientId fresh } := by
  refine Store.keeps_orders fun other row stored away => ⟨row, ?_, away⟩
  rw [Dict.get?_setDefault]
  split
  next same => subst same; simp [stored]
  next => exact stored

theorem updateOrder_started {order next : OwnedOrder} {snapshot : AlpacaPaperOrder} {now : Instant}
    {received : Option Instant} {outcome : Outcome}
    (updated : updateOrder order snapshot now received = .ok (next, outcome))
    (started : order.dispatchState ≠ .intent) : next.dispatchState ≠ .intent := by
  have cases := updateOrder_updated order snapshot now received
  rw [updated] at cases
  cases cases with
  | ignored => exact started
  | stored => simp [OwnedOrder.store]

theorem reconcileRow_unclaimed {row : OwnedOrder} {pass : Pass} {task : Task}
    (next : reconcileRow clientId row pass = some task) : task.claimed = none := by
  unfold reconcileRow at next
  dsimp only at next
  repeat' split at next
  all_goals cases next <;> rfl

theorem cancelRow_unclaimed {row : OwnedOrder} {pass : Pass} {task : Task}
    (next : cancelRow clientId row pass = some task) : task.claimed = none := by
  unfold cancelRow at next
  repeat' split at next
  all_goals cases next <;> rfl

end Rows

theorem transact_transacted (s : Store) (ownerId : String) (outside : Outside) (task : Task) :
    Transacted s task (transact s ownerId outside task) := by
  cases task with
  | reserving r =>
    rw [transact]
    split
    next => exact .quiet _ (Store.keeps_setDefault _) (by rintro _ ⟨⟩; rfl)
    next => exact .quiet _ (.refl s) (by simp)
  | dispatching clientId =>
    rw [transact]
    split
    next => exact .quiet _ (.refl s) (by intro t next; split at next <;> cases next; rfl)
    next => exact .quiet _ (.refl s) (by simp)
  | claiming clientId =>
    rw [transact]
    split
    next row stored =>
      split
      next passes =>
        rw [Bool.and_eq_true, decide_eq_true_eq] at passes
        exact .claimed outside.now stored passes.2
      next => exact .quiet _ (.refl s) (by simp)
    next => exact .quiet _ (.refl s) (by simp)
  | fencing clientId row =>
    rw [transact]
    split
    next reading later _ =>
      split
      next =>
        split
        next => exact .expired _ _ (.inr rfl)
        next => split <;> exact .fenced _ _ (by simp)
      next => exact .fenced _ _ (.inr rfl)
    next => exact .fenced _ _ (.inr rfl)
  | submitting clientId =>
    exact .submitted clientId (by intro t next; split at next <;> cases next <;> rfl)
  | unsent clientId => exact .expired _ _ (.inr rfl)
  | failed clientId definitive rateLimited statusCode =>
    exact .quiet _ (Store.keeps_modify fun _ _ => by simp [OwnedOrder.unknown])
      (by intro t next; split at next <;> cases next; rfl)
  | lookingUp clientId definitive =>
    refine .quiet _ (.refl s) ?_
    intro t next
    repeat' split at next
    all_goals cases next <;> rfl
  | rejecting clientId reconciled =>
    exact .quiet _ (Store.keeps_modify fun _ _ => by simp [OwnedOrder.reject]) (by simp)
  | updating clientId snapshot received =>
    rw [transact]
    split
    next order stored =>
      split
      next next outcome updated =>
        refine .quiet _ (Store.keeps_set fun row found started => ?_) (by simp)
        exact updateOrder_started updated (Option.some.inj (stored.symm.trans found) ▸ started)
      next => exact .quiet _ (.refl s) (by simp)
    next => exact .quiet _ (.refl s) (by simp)
  | reconciling clientId pass =>
    refine .quiet _ (.refl s) fun t next => ?_
    obtain ⟨row, -, next⟩ := Option.bind_eq_some_iff.mp next
    exact reconcileRow_unclaimed next
  | expiring clientId =>
    rw [transact]
    split
    next => exact .expired _ _ (.inl rfl)
    next => exact .quiet _ (.refl s) (by simp)
  | inspecting clientId definitive =>
    refine .quiet _ (.refl s) fun t next => ?_
    split at next
    all_goals cases next <;> rfl
  | marking clientId definitive =>
    exact .quiet _ (Store.keeps_modify fun _ started => started)
      (by intro t next; split at next <;> cases next; rfl)
  | cancelling clientId pass =>
    refine .quiet _ (.refl s) fun t next => ?_
    obtain ⟨row, -, next⟩ := Option.bind_eq_some_iff.mp next
    exact cancelRow_unclaimed next
  | requesting clientId cancelRequestedAt now =>
    rw [transact]
    split
    next => exact .quiet _ (Store.keeps_modify fun _ started => started) (by rintro _ ⟨⟩; rfl)
    next => exact .quiet _ (.refl s) (by simp)
  | requested clientId =>
    exact .quiet _ (.refl s) (by intro t next; split at next <;> cases next; rfl)
  | finding clientId =>
    refine .quiet _ (.refl s) fun t next => ?_
    split at next
    all_goals cases next <;> rfl

def Effect.clientId : Effect → String
  | .submitted clientId | .expired clientId => clientId

/-- What must not precede a submission: another one, and for the strict reading an expiry. -/
def Effect.Bars (strict : Bool) (clientId : String) (e : Effect) : Prop :=
  e = .submitted clientId ∨ strict = true ∧ e = .expired clientId

structure Store.Ordered (strict : Bool) (s : Store) : Prop where
  log : s.log.Pairwise fun later earlier => ∀ clientId, later = .submitted clientId →
    ¬earlier.Bars strict clientId
  started : ∀ e ∈ s.log, s.Started e.clientId

/-- What a thread knows of the order it has claimed. -/
structure Thread.Knows (strict : Bool) (s : Store) (t : Thread) : Prop where
  started : ∀ clientId, t.task.claimed = some clientId → s.Started clientId
  clear : ∀ clientId, t.task.bound = some clientId → ∀ e ∈ s.log, ¬e.Bars strict clientId

/-- A pass that is about to expire an order finds no thread that may still submit it. -/
def Unraced (_ : Outside) (_ : Store) (t u : Thread) : Prop :=
  ∀ clientId, t.task = .expiring clientId → u.task.bound ≠ some clientId

section Preserved

variable {strict : Bool} {s s' : Store} {clientId : String}

theorem Thread.knows_unclaimed {t : Thread} (unclaimed : t.task.claimed = none) : t.Knows strict s where
  started _ claimed := by rw [unclaimed] at claimed; cases claimed
  clear _ bound := by have claimed := Task.claimed_of_bound bound; rw [unclaimed] at claimed; cases claimed

theorem Store.Keeps.ordered (keeps : s.Keeps s') (ordered : s.Ordered strict) : s'.Ordered strict where
  log := keeps.log ▸ ordered.log
  started e member := keeps.started _ (ordered.started e (keeps.log ▸ member))

theorem Store.Keeps.knows (keeps : s.Keeps s') {t : Thread} (knows : t.Knows strict s) :
    t.Knows strict s' where
  started other claimed := keeps.started other (knows.started other claimed)
  clear other bound e member := knows.clear other bound e (keeps.log ▸ member)

/-- An expiry either finds no row or moves its order away from the intent. -/
theorem Store.expireUnsent_cases (s : Store) (clientId : String) (now : Instant)
    (reason : Option String) : s.expireUnsent clientId now reason = s ∨
      (s.expireUnsent clientId now reason).log = .expired clientId :: s.log ∧
      ∀ other, other = clientId ∨ s.Started other →
        (s.expireUnsent clientId now reason).Started other := by
  unfold Store.expireUnsent
  split
  next order stored =>
    refine .inr ⟨rfl, fun other away => ?_⟩
    by_cases here : clientId = other
    · exact ⟨order.expireUnsent now reason, by simp [here], by simp [OwnedOrder.expireUnsent]⟩
    · obtain ⟨row, found, started⟩ := away.resolve_left (Ne.symm here)
      exact ⟨row, by simpa [here] using found, started⟩
  next => exact .inl rfl

theorem Store.Ordered.expireUnsent (ordered : s.Ordered strict) (now : Instant)
    (reason : Option String) : (s.expireUnsent clientId now reason).Ordered strict := by
  rcases s.expireUnsent_cases clientId now reason with same | ⟨log, started⟩
  · exact same.symm ▸ ordered
  · refine ⟨?_, fun e member => ?_⟩
    · rw [log]
      exact List.pairwise_cons.mpr ⟨fun _ _ _ submitted => (nomatch submitted), ordered.log⟩
    · rw [log] at member
      rcases List.mem_cons.mp member with rfl | earlier
      · exact started clientId (.inl rfl)
      · exact started _ (.inr (ordered.started e earlier))

/-- An expiry takes nothing away from a thread that is not about to submit the order. -/
theorem Thread.Knows.expireUnsent {t : Thread} (knows : t.Knows strict s) (now : Instant)
    (reason : Option String) (other : strict = true → t.task.bound ≠ some clientId) :
    t.Knows strict (s.expireUnsent clientId now reason) := by
  rcases s.expireUnsent_cases clientId now reason with same | ⟨log, started⟩
  · exact same.symm ▸ knows
  · refine ⟨fun id claimed => started id (.inr (knows.started id claimed)), fun id bound e member => ?_⟩
    rw [log] at member
    rcases List.mem_cons.mp member with rfl | earlier
    · rintro (submitted | ⟨isStrict, expired⟩)
      · cases submitted
      · cases expired
        exact other isStrict bound
    · exact knows.clear id bound e earlier

theorem Store.started_claim {row : OwnedOrder} (now : Instant) :
    { s with orders := s.orders.set clientId (row.claim now) : Store }.Started clientId :=
  ⟨row.claim now, by simp, by simp [OwnedOrder.claim]⟩

theorem Store.keeps_claim {row : OwnedOrder} (now : Instant) :
    s.Keeps { s with orders := s.orders.set clientId (row.claim now) } :=
  Store.keeps_set fun _ _ _ => by simp [OwnedOrder.claim]

theorem Store.Ordered.submit (ordered : s.Ordered strict) {t : Thread} (knows : t.Knows strict s)
    (bound : t.task.bound = some clientId) :
    { s with log := .submitted clientId :: s.log : Store }.Ordered strict where
  log := by
    refine List.pairwise_cons.mpr ⟨fun e member id submitted => ?_, ordered.log⟩
    cases submitted
    exact knows.clear clientId bound e member
  started e member := by
    rcases List.mem_cons.mp member with rfl | earlier
    · exact knows.started clientId (Task.claimed_of_bound bound)
    · exact ordered.started e earlier

end Preserved

theorem Store.not_intended {s : Store} {clientId : String} (started : s.Started clientId)
    {row : OwnedOrder} (stored : s.orders.get? clientId = some row) : row.dispatchState ≠ .intent := by
  obtain ⟨_, found, away⟩ := started
  exact Option.some.inj (stored.symm.trans found) ▸ away

theorem Effect.Bars.clientId_eq {strict : Bool} {clientId : String} {e : Effect}
    (bars : e.Bars strict clientId) : e.clientId = clientId := by
  rcases bars with rfl | ⟨-, rfl⟩ <;> rfl

/-- What the engines' threads know, for either reading. -/
def submissionOutline (strict : Bool) :
    Outline engines fun outside s t u => strict = true → Unraced outside s t u where
  shared := Store.Ordered strict
  holds s t := t.Knows strict s
  apart t u := ∀ clientId, t.task.claimed = some clientId → u.task.claimed ≠ some clientId
  symmetric apart clientId claimed other := apart clientId other claimed
  starting {s t} starts := by
    have unclaimed : t.task.claimed = none := by
      obtain ⟨ownerId, task⟩ := t
      cases task <;> first | rfl | cases starts
    exact ⟨Thread.knows_unclaimed unclaimed, fun u clientId claimed => by simp [unclaimed] at claimed⟩
  own {outside s t} ordered knows := by
    obtain ⟨ownerId, task⟩ := t
    have step := transact_transacted s ownerId outside task
    simp only [engines]
    generalize transact s ownerId outside task = result at step
    cases step with
    | quiet _ keeps unclaimed =>
      refine ⟨keeps.ordered ordered, fun t' next => ?_⟩
      obtain ⟨task, member, rfl⟩ := Option.map_eq_some_iff.mp next
      exact Thread.knows_unclaimed (unclaimed task member)
    | claimed now stored intended =>
      refine ⟨(Store.keeps_claim now).ordered ordered, ?_⟩
      rintro _ ⟨⟩
      refine ⟨?_, ?_⟩
      · rintro _ ⟨⟩
        exact Store.started_claim now
      · -- An effect on the order would have moved it away from its intent.
        rintro _ ⟨⟩ e member bars
        have started := ordered.started e member
        rw [bars.clientId_eq] at started
        exact Store.not_intended started stored intended
    | fenced clientId row either =>
      refine ⟨ordered, ?_⟩
      rintro _ ⟨⟩
      rcases either with rfl | rfl
      · exact ⟨knows.started, knows.clear⟩
      · exact ⟨knows.started, fun _ bound => nomatch bound⟩
    | submitted clientId unclaimed =>
      refine ⟨ordered.submit knows rfl, fun t' next => ?_⟩
      obtain ⟨task, member, rfl⟩ := Option.map_eq_some_iff.mp next
      exact Thread.knows_unclaimed (unclaimed task member)
    | expired now reason own => exact ⟨ordered.expireUnsent now reason, by simp⟩
  others {outside s t u} ordered knowsT knowsU apart guard := by
    obtain ⟨ownerId, task⟩ := t
    have step := transact_transacted s ownerId outside task
    simp only [engines]
    generalize transact s ownerId outside task = result at step
    cases step with
    | quiet _ keeps unclaimed =>
      refine ⟨keeps.knows knowsU, fun t' next clientId claimed => ?_⟩
      obtain ⟨task, member, rfl⟩ := Option.map_eq_some_iff.mp next
      rw [unclaimed task member] at claimed
      cases claimed
    | claimed now stored intended =>
      refine ⟨(Store.keeps_claim now).knows knowsU, ?_⟩
      -- Whoever had claimed the order before had moved it away from its intent.
      rintro _ ⟨⟩ _ ⟨⟩ other
      exact Store.not_intended (knowsU.started _ other) stored intended
    | fenced clientId row either =>
      refine ⟨knowsU, ?_⟩
      rintro _ ⟨⟩ id claimed
      rcases either with rfl | rfl <;> exact apart id claimed
    | submitted clientId unclaimed =>
      refine ⟨⟨knowsU.started, fun id bound e member => ?_⟩, fun t' next id claimed => ?_⟩
      · rcases List.mem_cons.mp member with rfl | earlier
        · intro bars
          have same : clientId = id := bars.clientId_eq
          exact apart clientId rfl (same ▸ Task.claimed_of_bound bound)
        · exact knowsU.clear id bound e earlier
      · obtain ⟨task, member, rfl⟩ := Option.map_eq_some_iff.mp next
        rw [unclaimed task member] at claimed
        cases claimed
    | expired now reason own =>
      refine ⟨knowsU.expireUnsent now reason fun isStrict bound => ?_, by simp⟩
      rcases own with rfl | claimed
      · exact guard isStrict _ rfl bound
      · exact apart _ claimed (Task.claimed_of_bound bound)
  environment {lease s} ordered :=
    ⟨⟨ordered.log, ordered.started⟩, fun _ knows => ⟨knows.started, knows.clear⟩⟩

theorem run_ordered {strict : Bool} {lease : Option Lease} {events : List (Event Thread Outside (Option Lease))}
    (met : engines.Met (fun outside s t u => strict = true → Unraced outside s t u)
      (.idle (.initial lease)) events) :
    (engines.run (.idle (.initial lease)) events).shared.Ordered strict :=
  ((submissionOutline strict).run_holds
    ((submissionOutline strict).holds_idle ⟨.nil, by simp [Store.initial]⟩) met).shared

/-- No interleaving submits an order twice, and none in which every pass that expires an order
finds no thread between its claim of that order and its broker call submits an expired one. -/
theorem run_submits_once (lease : Option Lease) (events : List (Event Thread Outside (Option Lease))) :
    let log := (engines.run (.idle (.initial lease)) events).shared.log
    (log.Pairwise fun later earlier =>
      ∀ clientId, later = .submitted clientId → earlier ≠ .submitted clientId) ∧
    (engines.Met Unraced (.idle (.initial lease)) events → log.Pairwise fun later earlier =>
      ∀ clientId, later = .submitted clientId → earlier ≠ .expired clientId) := by
  refine ⟨?_, fun met => ?_⟩
  · have ordered := @run_ordered false lease events
      (engines.met_trivial (fun _ _ _ _ strict => nomatch strict) _ _)
    exact ordered.log.imp fun bars id submitted same => bars id submitted (.inl same)
  · have ordered := @run_ordered true lease events (by simpa using met)
    exact ordered.log.imp fun bars id submitted same => bars id submitted (.inr ⟨rfl, same⟩)

def plainPass : Pass := ⟨1, false, false, false, 5 * second⟩

/-- One thread reserves an entry and reads its intent; another reconciles and reads it too.
The first claims, the second expires what it read, and the first goes on to the broker. -/
def staleIntent : List (Event Thread Outside (Option Lease)) :=
  [ .spawn 0 ⟨"worker", .reserving ⟨boughtIntent, some (30 * second), boughtIntent_positive⟩⟩, .act 0 ⟨1, .nothing⟩,
    .act 0 ⟨1, .nothing⟩,
    .spawn 1 ⟨"worker", .reconciling "v30-1" plainPass⟩, .act 1 ⟨1, .nothing⟩,
    .act 0 ⟨1, .nothing⟩,
    .act 1 ⟨1, .nothing⟩,
    .act 0 ⟨1, .fence passingFence 1⟩, .act 0 ⟨1, .snapshot partialFill⟩ ]

theorem staleIntent_submits_expired :
    ¬(engines.run (.idle (.initial (some ⟨"worker", 0⟩))) staleIntent).shared.log.Pairwise
      fun later earlier => ∀ clientId, later = .submitted clientId →
        earlier ≠ .submitted clientId ∧ earlier ≠ .expired clientId := by
  have log : (engines.run (.idle (.initial (some ⟨"worker", 0⟩))) staleIntent).shared.log =
      [.submitted "v30-1", .expired "v30-1"] := by decide +kernel
  rw [log]
  simp

end TradeAgent.Scalp
