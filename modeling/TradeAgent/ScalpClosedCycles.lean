import TradeAgent.ScalpOversell
import TradeAgent.ScalpOwnershipChain

/-! What is final stays so. No step of the engine takes an order back from its final status or moves
its fills, and none sends a new order to a closed cycle: a closed cycle keeps the entry it was closed
with, and one that was closed without an entry never gets one. -/
namespace TradeAgent.Scalp

section Orders

/-- What no change of a row takes back: a final order stays final, with its fills. -/
structure OwnedOrder.Follows (row row' : OwnedOrder) : Prop where
  intent : row'.intent = row.intent
  final : row.status.final → row'.status.final
  acknowledged : row.status.final → row'.acknowledged = row.acknowledged

theorem Milder.follows {row row' : OwnedOrder} (milder : Milder row row')
    (stays : row.status.final → row'.status.final) : row.Follows row' where
  intent := milder.intent
  final := stays
  acknowledged ended := by
    have exposure := milder.exposure
    rw [OwnedOrder.exposure, if_pos (stays ended), OwnedOrder.exposure, if_pos ended] at exposure
    exact le_antisymm exposure milder.acknowledged

/-- A change that keeps what the broker reported, and the status where it is final. -/
theorem OwnedOrder.Follows.reported {row row' : OwnedOrder} (intent : row'.intent = row.intent)
    (stored : row'.broker = row.broker) (stays : row.status.final → row'.status.final) : row.Follows row' where
  intent := intent
  final := stays
  acknowledged _ := by rw [OwnedOrder.acknowledged, OwnedOrder.acknowledged, stored]

/-- An order that was never claimed is not final. -/
theorem RowSound.unclaimed {broker : Broker} {bound : Option String} {clientId : String} {row : OwnedOrder}
    (sound : RowSound broker bound clientId row) (intended : row.dispatchState = .intent) :
    ¬row.status.final := by
  intro ended
  rcases sound.settled ended with ⟨p, held, -⟩ | withheld
  · exact not_seen (sound.intended intended) (sound.known p held)
  · exact withheld.started intended

/-- The row that a task would add. -/
def Task.adds (outside : Outside) : Task → Option OwnedOrder
  | .reserving r => some (r.order outside.now)
  | _ => none

def Engine.adds (e : Engine) : Move → Option OwnedOrder
  | .act _ outside _ =>
    match e.job with
    | .task t => t.adds outside
    | _ => none
  | _ => none

/-- All that a step does to the stored orders. -/
inductive Rewrites (orders : Dict String OwnedOrder) (adds : Option OwnedOrder) :
    Dict String OwnedOrder → Prop
  | same : Rewrites orders adds orders
  | changed {clientId : String} {row row' : OwnedOrder} (stored : orders.get? clientId = some row)
      (follows : row.Follows row') : Rewrites orders adds (orders.set clientId row')
  | added {row : OwnedOrder} (held : adds = some row) (absent : orders.get? row.intent.clientOrderId = none) :
      Rewrites orders adds (orders.set row.intent.clientOrderId row)

variable {orders : Dict String OwnedOrder} {adds : Option OwnedOrder}

theorem Rewrites.modify (clientId : String) {change : OwnedOrder → OwnedOrder}
    (follows : ∀ row, orders.get? clientId = some row → row.Follows (change row)) :
    Rewrites orders adds (orders.modify clientId change) := by
  cases stored : orders.get? clientId with
  | none =>
    rw [Dict.modify_of_absent stored]
    exact .same
  | some row =>
    rw [Dict.modify_of_get stored]
    exact .changed stored (follows row stored)

theorem Rewrites.expireUnsent (s : Store) (clientId : String) (now : Instant) (reason : Option String) :
    Rewrites s.orders adds (s.expireUnsent clientId now reason).orders := by
  unfold Store.expireUnsent
  split
  next row stored => exact .changed stored (.reported rfl rfl fun _ => rfl)
  next => exact .same

variable {e : Engine}

theorem Engine.Sound.transact_rewrites (sound : e.Sound) {t : Task} (held : e.job = .task t) (ownerId : String)
    (outside : Outside) (answers : e.answers t outside.reply) :
    Rewrites e.store.orders (t.adds outside) (transact e.store ownerId outside t).1.orders := by
  have ready : TaskReady e.store e.broker t := by simpa [Engine.Ready, held] using sound.ready
  cases t with
  | reserving r =>
    rw [transact]
    split
    next =>
      cases stored : e.store.orders.get? r.intent.clientOrderId with
      | none =>
        dsimp only
        rw [Dict.setDefault_of_absent stored]
        exact .added rfl stored
      | some row =>
        dsimp only
        rw [Dict.setDefault_of_get stored]
        exact .same
    next => exact .same
  | claiming clientId =>
    rw [transact]
    split
    next row stored =>
      split
      next passes =>
        rw [Bool.and_eq_true, decide_eq_true_eq] at passes
        exact .changed stored (.reported rfl rfl fun ended =>
          absurd ended ((sound.rows clientId row stored).unclaimed passes.2))
      next => exact .same
    next => exact .same
  | fencing clientId row =>
    rw [transact]
    repeat' split
    all_goals first
      | exact .same
      | exact .expireUnsent _ _ _ _
  | unsent clientId => exact .expireUnsent _ _ _ _
  | expiring clientId =>
    rw [transact]
    split
    next => exact .expireUnsent _ _ _ _
    next => exact .same
  | failed clientId => exact .modify clientId fun row _ => .reported rfl rfl id
  | rejecting clientId => exact .modify clientId fun row _ => .reported rfl rfl fun _ => rfl
  | marking clientId => exact .modify clientId fun row _ => .reported rfl rfl id
  | requesting clientId =>
    rw [transact]
    split
    next => exact .modify clientId fun row _ => .reported rfl rfl id
    next => exact .same
  | updating clientId snapshot received =>
    rw [transact]
    split
    next row stored =>
      split
      next row' outcome result =>
        have updated := updateOrder_updated row snapshot outside.now received
        rw [result] at updated
        obtain ⟨milder, -, stays⟩ := sound.receive stored ready updated
        exact .changed stored (milder.follows stays)
      next => exact .same
    next => exact .same
  | dispatching clientId =>
    rw [transact]
    split <;> exact .same
  | submitting | lookingUp | reconciling | inspecting | cancelling | requested | finding => exact .same

theorem Engine.Sound.deliver_rewrites (sound : e.Sound) (d : Delivery) :
    Rewrites e.store.orders adds (e.deliver d).store.orders := by
  unfold Engine.deliver
  split
  next row stored =>
    split
    next known =>
      refine .changed stored ?_
      obtain ⟨received, updated⟩ := d.updated row
      unfold Scalp.deliver
      cases result : d.apply row with
      | error => exact .reported rfl rfl id
      | ok taken =>
        rw [result] at updated
        obtain ⟨milder, -, stays⟩ := sound.receive stored known updated
        exact milder.follows stays
    next => exact .same
  next => exact .same

theorem Engine.refreshed_orders {r : Reading} {extra : List String} {now : Instant} {found : Found}
    {next : Engine} (done : e.refreshed r extra now found = some next) :
    next.store = e.store ∧ next.job = e.job := by
  unfold Engine.refreshed at done
  split at done
  next => cases done; exact ⟨rfl, rfl⟩
  next => cases done

/-- Whatever the engine does, it rewrites at most one order, or adds the one in hand. -/
theorem Engine.Sound.step_rewrites (sound : e.Sound) (m : Move) :
    Rewrites e.store.orders (e.adds m) (e.step m).store.orders := by
  cases m with
  | crash => exact .same
  | lease row => exact .same
  | report order =>
    rw [Engine.step]
    unfold Engine.report
    repeat' split
    all_goals exact .same
  | openCycle | requestExit | reconcile | cancel =>
    rw [Engine.step]
    split <;> exact .same
  | enter r =>
    rw [Engine.step]
    repeat' split
    all_goals exact .same
  | deliver d =>
    rw [Engine.step]
    split
    next => exact sound.deliver_rewrites d
    next => exact sound.deliver_rewrites d
    next => exact sound.deliver_rewrites d
    next => exact .same
  | refresh r extra now found =>
    rw [Engine.step]
    have kept : Rewrites e.store.orders (e.adds (.refresh r extra now found))
        ((e.refreshed r extra now found).getD e).store.orders := by
      cases done : e.refreshed r extra now found with
      | none => exact .same
      | some next =>
        rw [Option.getD_some, (Engine.refreshed_orders done).1]
        exact .same
    split
    next => exact kept
    next => exact kept
    next =>
      split
      next next done =>
        dsimp only
        rw [(Engine.refreshed_orders done).1]
        exact .same
      next => exact .same
    next => exact .same
  | exit listed =>
    rw [Engine.step]
    repeat' split
    all_goals exact .same
  | size asset available unowned clientId =>
    rw [Engine.step]
    repeat' split
    all_goals exact .same
  | act ownerId outside taken =>
    rw [Engine.step]
    split
    next t held =>
      unfold Engine.act
      split
      next answers =>
        have adds : e.adds (.act ownerId outside taken) = t.adds outside := by simp only [Engine.adds, held]
        rw [adds]
        exact sound.transact_rewrites held ownerId outside answers
      next => exact .same
    next => exact .same

end Orders

section Cycles

/-- What a closed cycle has settled: its orders are final, and its entry is what its buys filled. -/
structure ClosedOut (s : Store) (cycleId : String) (cycle : OwnedCycle) : Prop where
  resolved : ∀ row ∈ cycleOrders s cycleId, row.status.final
  entry : cycle.columns.entryQuantity = filledOn .buy (cycleOrders s cycleId)

theorem ClosedOut.rewrites {s store : Store} {adds : Option OwnedOrder} {cycleId : String}
    {cycle : OwnedCycle} (closed : ClosedOut s cycleId cycle)
    (rewrites : Rewrites s.orders adds store.orders)
    (apart : ∀ row ∈ adds, row.intent.cycleId ≠ cycleId) : ClosedOut store cycleId cycle := by
  obtain ⟨resolved, entry⟩ := closed
  rw [filledOn_buy] at entry
  generalize wrote : store.orders = orders at rewrites
  cases rewrites with
  | same =>
    have same : cycleOrders store cycleId = cycleOrders s cycleId := by
      unfold cycleOrders
      rw [wrote]
    exact ⟨same ▸ resolved, by rw [filledOn_buy, entry, wrote]⟩
  | @changed clientId row row' stored follows =>
    refine ⟨resolved_set resolved stored wrote follows.intent follows.final, ?_⟩
    rw [filledOn_buy, wrote, Dict.total_set_of_get stored, entry]
    have fills : bought cycleId row' = bought cycleId row := by
      unfold bought
      rw [follows.intent]
      split
      next own => exact follows.acknowledged (resolved row (mem_cycleOrders.mpr ⟨⟨clientId, stored⟩, own.1⟩))
      next => rfl
    rw [fills]
    ring
  | @added row held absent =>
    have elsewhere := apart row held
    constructor
    · intro other member
      obtain ⟨⟨key, found⟩, own⟩ := mem_cycleOrders.mp member
      rw [wrote, Dict.get?_set] at found
      split at found
      next => cases found; exact absurd own elsewhere
      next => exact resolved other (mem_cycleOrders.mpr ⟨⟨key, found⟩, own⟩)
    · have adds := s.orders.total_set row.intent.clientOrderId row (bought cycleId)
      have none_ : bought cycleId row = 0 := if_neg fun own => elsewhere own.1
      rw [absent, none_] at adds
      rw [filledOn_buy, wrote, entry]
      simpa using adds.symm

/-- A cycle that is not closed may still fill. -/
def OwnedCycle.mayFill (cycle : OwnedCycle) : Bool :=
  !cycle.state.closed || decide (0 < cycle.columns.entryQuantity)

/-- The same cycle later on. -/
structure OwnedCycle.Continues (cycle cycle' : OwnedCycle) : Prop where
  cycleId : cycle'.cycleId = cycle.cycleId
  createdAt : cycle'.createdAt = cycle.createdAt
  mayFill : cycle'.mayFill → cycle.mayFill

theorem OwnedCycle.Continues.refl (cycle : OwnedCycle) : cycle.Continues cycle := ⟨rfl, rfl, id⟩

section State

variable {cycle : OwnedCycle} {rows : List OwnedOrder} {s : Settled} {closed : Bool}
  {bought sold position held : ℚ}

theorem nextState_resolved (ended : (nextState cycle rows s closed bought sold position held).closed) :
    ∀ row ∈ rows, row.status.final := by
  have pending : (rows.any fun row => !row.status.final) = false → ∀ row ∈ rows, row.status.final := by
    intro none_ row member
    simpa using List.any_eq_false.mp none_ row member
  unfold nextState at ended
  dsimp only at ended
  split at ended
  next nothing =>
    rcases nothing with empty | ⟨all, -⟩
    · simp [List.isEmpty_iff.mp empty]
    · simp only [Bool.and_eq_true, Bool.not_eq_true'] at all
      exact pending all.2
  next =>
    split at ended
    next => cases ended
    next =>
      split at ended
      next done =>
        simp only [Bool.and_eq_true, Bool.not_eq_true'] at done
        exact pending done.1.2
      next => repeat' split at ended
              all_goals cases ended

theorem nextState_unfilled (resolved : ∀ row ∈ rows, row.status.final) (nothing : bought = 0) :
    nextState cycle rows s closed bought sold position held = .noFill := by
  unfold nextState
  refine if_pos ?_
  cases rows with
  | nil => exact .inl rfl
  | cons row rest =>
    refine .inr ⟨?_, nothing⟩
    simpa using resolved

end State

theorem WrittenFrom.continues {r : Reading} {now : Instant} {k : OwnedCycle × Fact} {cycle : OwnedCycle}
    (from_ : WrittenFrom r now k cycle) {store : Store} {cycleId : String}
    (orders : r.orders k.1.cycleId = cycleOrders store cycleId)
    (known : k.1.state.closed → ClosedOut store cycleId k.1) :
    k.1.Continues cycle ∧ (cycle.state.closed → ClosedOut store cycleId cycle) := by
  obtain ⟨evidenceReady, jointSettled, acquired, observed, held, s, -, rfl⟩ := from_
  have entry : (written r now jointSettled held k.1 k.2 s).columns.entryQuantity =
      filledOn .buy (cycleOrders store cycleId) := by rw [← orders]; rfl
  refine ⟨⟨rfl, rfl, fun may => ?_⟩, fun ended => ⟨?_, entry⟩⟩
  · by_contra spent
    simp only [OwnedCycle.mayFill, Bool.or_eq_true, Bool.not_eq_true', decide_eq_true_eq, not_or,
      Bool.not_eq_false] at spent
    obtain ⟨resolved, before⟩ := known spent.1
    have nothing : filledOn .buy (r.orders k.1.cycleId) = 0 := by
      rw [orders, ← before]
      exact le_antisymm (not_lt.mp spent.2) (before ▸ filledOn_nonneg .buy _)
    have ended : (written r now jointSettled held k.1 k.2 s).state = .noFill :=
      nextState_unfilled (orders ▸ resolved) nothing
    rw [OwnedCycle.mayFill, ended, entry, ← orders, nothing] at may
    simp [CycleState.closed] at may
  · rw [← orders]
    exact nextState_resolved ended

variable {e : Engine}

def Engine.ClosedOut (e : Engine) : Prop := ∀ cycleId cycle, e.cycles.get? cycleId = some cycle →
  cycle.state.closed → Scalp.ClosedOut e.store cycleId cycle

/-- All that a step does to the stored cycles. -/
structure Recycles (e : Engine) (cycles : Dict String OwnedCycle) : Prop where
  kept : ∀ cycleId, (e.cycles.get? cycleId).isSome → (cycles.get? cycleId).isSome
  continues : ∀ cycleId cycle', cycles.get? cycleId = some cycle' →
    (∃ cycle, e.cycles.get? cycleId = some cycle ∧ cycle.Continues cycle') ∨
    e.cycles.get? cycleId = none
  closed : ∀ cycleId cycle', cycles.get? cycleId = some cycle' → cycle'.state.closed →
    Scalp.ClosedOut e.store cycleId cycle'

theorem Recycles.refl (closed : e.ClosedOut) : Recycles e e.cycles where
  kept _ := id
  continues _ cycle present := .inl ⟨cycle, present, .refl cycle⟩
  closed := closed

theorem project_written {r : Reading} {now : Instant} {p : Projection} (done : project r now = .ok p) :
    ∃ known : List (OwnedCycle × Fact), known.map Prod.fst = byCreation r.cycles ∧
      List.Forall₂ (WrittenFrom r now) known p.cycles := by
  unfold project at done
  obtain ⟨ready, -, done⟩ := bind_ok_iff.mp done
  obtain ⟨cycles, settled, done⟩ := bind_ok_iff.mp done
  cases done
  exact ⟨_, facts_cycles _ _ _ _, settleAll_written settled⟩

theorem Engine.Sound.refreshed_recycles (sound : e.Sound) (closed : e.ClosedOut) {r : Reading}
    {extra : List String} {now : Instant} {found : Found} {next : Engine}
    (done : e.refreshed r extra now found = some next) : Recycles e next.cycles := by
  unfold Engine.refreshed at done
  split at done
  next p projected =>
    cases done
    obtain ⟨q, made, same⟩ := bind_ok_iff.mp projected
    rw [commit_same same]
    obtain ⟨known, cycles, wrote⟩ := project_written made
    -- A cycle after the refresh was written from a stored one, or is that one.
    have origin : ∀ cycleId cycle',
        (e.cycles.update (q.cycles.map fun c => (c.cycleId, c))).get? cycleId = some cycle' →
        ∃ cycle, e.cycles.get? cycleId = some cycle ∧ cycle.Continues cycle' ∧
          (cycle'.state.closed → Scalp.ClosedOut e.store cycleId cycle') := by
      intro cycleId cycle' present
      rcases Dict.get?_update present with new | ⟨old, -⟩
      · obtain ⟨c, member, same⟩ := List.mem_map.mp new
        cases same
        obtain ⟨k, from_, written⟩ := forall₂_exists_left wrote member
        have read : k.1 ∈ byCreation (e.reading r extra).cycles := cycles ▸ List.mem_map_of_mem from_
        obtain ⟨key, stored⟩ :=
          Dict.mem_values.mp (List.mem_filter.mp (List.mem_mergeSort.mp read)).1
        have named := (sound.cycles key k.1 stored).named
        have same : cycle'.cycleId = key := by
          obtain ⟨_, _, _, _, _, _, -, rfl⟩ := written
          exact named
        rw [same]
        exact ⟨k.1, stored, written.continues (congrArg (cycleOrders e.store) named) (closed key k.1 stored)⟩
      · exact ⟨cycle', old, .refl cycle', closed cycleId cycle' old⟩
    constructor
    case kept => exact fun cycleId present => (Dict.isSome_update _ _ _).mpr (.inl present)
    case continues =>
      intro cycleId cycle' present
      obtain ⟨cycle, stored, continues, -⟩ := origin cycleId cycle' present
      exact .inl ⟨cycle, stored, continues⟩
    case closed =>
      intro cycleId cycle' present
      obtain ⟨-, -, -, closed⟩ := origin cycleId cycle' present
      exact closed
  next => cases done

theorem Recycles.opened (closed : e.ClosedOut) (cycleId symbol : String) (now : Instant) :
    Recycles e (e.cycles.setDefault cycleId (newCycle cycleId symbol now)) := by
  cases stored : e.cycles.get? cycleId with
  | some old =>
    rw [Dict.setDefault_of_get stored]
    exact .refl closed
  | none =>
    rw [Dict.setDefault_of_absent stored]
    constructor
    case kept =>
      intro other present
      rw [Dict.get?_set]
      split
      next => rfl
      next => exact present
    case continues =>
      intro other cycle' present
      rw [Dict.get?_set] at present
      split at present
      next same => exact .inr (same ▸ stored)
      next => exact .inl ⟨cycle', present, .refl cycle'⟩
    case closed =>
      intro other cycle' present ended
      rw [Dict.get?_set] at present
      split at present
      next => cases present; cases ended
      next => exact closed other cycle' present ended

theorem Recycles.requested (closed : e.ClosedOut) (cycleId : String) (now : Instant) :
    Recycles e (e.cycles.modify cycleId fun c => { c with exitRequested := true, updatedAt := now }) := by
  cases stored : e.cycles.get? cycleId with
  | none =>
    rw [Dict.modify_of_absent stored]
    exact .refl closed
  | some cycle =>
    rw [Dict.modify_of_get stored]
    constructor
    case kept =>
      intro other present
      rw [Dict.get?_set]
      split
      next => rfl
      next => exact present
    case continues =>
      intro other cycle' present
      rw [Dict.get?_set] at present
      split at present
      next same =>
        cases present
        exact .inl ⟨cycle, same ▸ stored, rfl, rfl, id⟩
      next => exact .inl ⟨cycle', present, .refl cycle'⟩
    case closed =>
      intro other cycle' present ended
      rw [Dict.get?_set] at present
      split at present
      next same =>
        cases present
        have before := closed cycleId cycle stored ended
        exact same ▸ ⟨before.resolved, before.entry⟩
      next => exact closed other cycle' present ended

theorem Engine.Sound.step_recycles (sound : e.Sound) (closed : e.ClosedOut) (m : Move) :
    Recycles e (e.step m).cycles := by
  cases m with
  | crash | lease => exact .refl closed
  | report order =>
    rw [Engine.step]
    unfold Engine.report
    repeat' split
    all_goals exact .refl closed
  | openCycle cycleId symbol now =>
    rw [Engine.step]
    split
    next => exact .opened closed cycleId symbol now
    next => exact .refl closed
  | requestExit cycleId now =>
    rw [Engine.step]
    split
    next => exact .requested closed cycleId now
    next => exact .refl closed
  | deliver d =>
    rw [Engine.step]
    unfold Engine.deliver
    repeat' split
    all_goals exact .refl closed
  | refresh r extra now found =>
    have quiet : Recycles e ((e.refreshed r extra now found).getD e).cycles := by
      cases done : e.refreshed r extra now found with
      | none => exact .refl closed
      | some next => exact sound.refreshed_recycles closed done
    rw [Engine.step]
    split
    next => exact quiet
    next => exact quiet
    next =>
      split
      next next done =>
        have kept := sound.refreshed_recycles closed done
        exact kept
      next => exact .refl closed
    next => exact .refl closed
  | act ownerId outside taken =>
    rw [Engine.step]
    unfold Engine.act
    repeat' split
    all_goals exact .refl closed
  | reconcile | cancel | enter | exit | size =>
    rw [Engine.step]
    repeat' split
    all_goals exact .refl closed

end Cycles

section Entering

variable {e : Engine}

/-- The order a thread is about to reserve. -/
def Job.reserving : Job → Option Reservation
  | .task (.reserving r) => some r
  | _ => none

/-- What the thread is about to reserve belongs to a cycle that is not closed. -/
def Engine.Entering (e : Engine) : Prop := ∀ r, e.job.reserving = some r →
  ∃ cycle, e.cycles.get? r.intent.cycleId = some cycle ∧ cycle.state.closed = false

/-- While the thread is about to reserve an order, no cycle changes. -/
theorem Engine.step_cycles_reserving {r : Reservation} (held : e.job = .task (.reserving r)) (m : Move) :
    (e.step m).cycles = e.cycles := by
  cases m <;> simp only [Engine.step, held]
  case report order =>
    unfold Engine.report
    repeat' split
    all_goals rfl
  case act =>
    unfold Engine.act
    split <;> rfl

theorem Job.reserving_some {job : Job} {r : Reservation} (held : job.reserving = some r) :
    job = .task (.reserving r) := by
  cases job with
  | task t =>
    cases t with
    | reserving => exact congrArg (Job.task ∘ Task.reserving) (Option.some.inj held)
    | _ => cases held
  | _ => cases held

/-- No transaction is followed by a reservation. -/
theorem transact_unreserving (s : Store) (ownerId : String) (outside : Outside) (t : Task) (r : Reservation) :
    (transact s ownerId outside t).2 ≠ some (.reserving r) := by
  cases t with
  | reconciling clientId pass =>
    simp only [transact, ne_eq, Option.bind_eq_some_iff, not_exists, not_and]
    intro row _
    unfold reconcileRow
    dsimp only
    repeat' split
    all_goals simp
  | cancelling clientId pass =>
    simp only [transact, ne_eq, Option.bind_eq_some_iff, not_exists, not_and]
    intro row _
    unfold cancelRow
    repeat' split
    all_goals simp
  | _ =>
    simp only [transact]
    repeat' split
    all_goals simp

/-- An exit of what a sound cycle owns is for one that is not closed. -/
theorem exitReservation_entering {asset : CryptoAsset} {cycleId : String} {cycle : OwnedCycle}
    {available unowned : ℚ} {clientId : String} {r : Reservation} (sound : CycleSound cycleId cycle)
    (made : exitReservation asset cycle available unowned clientId = some r) :
    r.intent.cycleId = cycleId ∧ cycle.state.closed = false := by
  obtain ⟨own, within⟩ := exitReservation_covered made
  refine ⟨own.trans sound.named, Bool.not_eq_true _ ▸ fun ended => ?_⟩
  linarith [sound.closed ended, r.positive]

/-- Besides an entry, only the sizing of an exit leads to a reservation. -/
theorem Engine.Sound.step_entering (sound : e.Sound) (entering : e.Entering) {m : Move}
    (apart : ∀ r, m ≠ .enter r) : (e.step m).Entering := by
  intro r held
  have kept : e.job.reserving = some r → ∃ cycle, (e.step m).cycles.get? r.intent.cycleId = some cycle ∧
      cycle.state.closed = false := by
    intro before
    rw [Engine.step_cycles_reserving (Job.reserving_some before)]
    exact entering r before
  cases m with
  | enter r => exact absurd rfl (apart r)
  | crash => cases held
  | lease row => exact kept held
  | report order =>
    refine kept ?_
    rw [Engine.step] at held
    unfold Engine.report at held
    repeat' split at held
    all_goals exact held
  | deliver d =>
    refine kept ?_
    rw [Engine.step] at held
    unfold Engine.deliver at held
    repeat' split at held
    all_goals exact held
  | openCycle cycleId symbol now =>
    refine kept ?_
    rw [Engine.step] at held
    split at held
    all_goals exact held
  | requestExit cycleId now =>
    refine kept ?_
    rw [Engine.step] at held
    split at held
    all_goals exact held
  | reconcile | cancel | exit =>
    refine kept ?_
    rw [Engine.step] at held
    repeat' split at held
    all_goals first
      | exact held
      | cases held
  | refresh rd extra now found =>
    refine kept ?_
    rw [Engine.step] at held
    have quiet : ((e.refreshed rd extra now found).getD e).job = e.job := by
      cases done : e.refreshed rd extra now found with
      | none => rfl
      | some next => exact (Engine.refreshed_orders done).2
    split at held
    next => exact quiet ▸ held
    next => exact quiet ▸ held
    next =>
      split at held
      next => cases held
      next => cases held
    next => exact held
  | act ownerId outside taken =>
    rw [Engine.step] at held
    split at held
    next t task =>
      unfold Engine.act at held
      split at held
      next =>
        have next := Job.reserving_some held
        unfold Engine.after at next
        cases following : (transact e.store ownerId outside t).2 with
        | none => simp [following] at next
        | some t' =>
          simp only [following, Option.map_some, Option.getD_some, Job.task.injEq] at next
          exact absurd (following.trans (congrArg some next)) (transact_unreserving _ _ _ _ _)
      next => exact kept held
    next => exact kept held
  | size asset available unowned clientId =>
    have same : (e.step (.size asset available unowned clientId)).cycles = e.cycles := by
      rw [Engine.step]
      repeat' split
      all_goals rfl
    rw [same] at kept ⊢
    rw [Engine.step] at held
    split at held
    next cycleId sizing =>
      split at held
      next r' made =>
        obtain ⟨cycle, stored, made⟩ := Option.bind_eq_some_iff.mp made
        obtain rfl := Option.some.inj held
        obtain ⟨own, opened⟩ := exitReservation_entering (sound.cycles cycleId cycle stored) made
        rw [own]
        exact ⟨cycle, stored, opened⟩
      next => cases held
    next => exact kept held

end Entering

/-- An added row is the one in hand, and no cycle changes with it. -/
theorem Engine.adds_reserving {e : Engine} {m : Move} {row : OwnedOrder} (held : e.adds m = some row) :
    (∃ r, e.job.reserving = some r ∧ row.intent = r.intent) ∧ (e.step m).cycles = e.cycles := by
  unfold Engine.adds at held
  split at held
  next ownerId outside taken =>
    split at held
    next t task =>
      cases t with
      | reserving r =>
        obtain rfl := Option.some.inj held
        exact ⟨⟨r, by rw [task]; rfl, rfl⟩, Engine.step_cycles_reserving task _⟩
      | _ => cases held
    next => cases held
  next => cases held

/-- An engine whose closed cycles are done: their orders are final, and no order is on its way to one. -/
structure Engine.Steady (e : Engine) : Prop where
  sound : e.Sound
  closed : e.ClosedOut
  entering : e.Entering

namespace Engine.Steady

variable {e : Engine}

theorem step_closed (steady : e.Steady) (m : Move) : (e.step m).ClosedOut := by
  intro cycleId cycle present ended
  have closed := (steady.sound.step_recycles steady.closed m).closed cycleId cycle present ended
  refine closed.rewrites (steady.sound.step_rewrites m) fun row held same => ?_
  obtain ⟨⟨r, reserving, intent⟩, kept⟩ := Engine.adds_reserving held
  obtain ⟨own, stored, opened⟩ := steady.entering r reserving
  rw [kept] at present
  rw [← intent, same, present] at stored
  obtain rfl := Option.some.inj stored
  rw [opened] at ended
  cases ended

theorem step (steady : e.Steady) {m : Move} (apart : ∀ r, m ≠ .enter r) : (e.step m).Steady :=
  ⟨Engine.step_sound steady.sound m, steady.step_closed m, steady.sound.step_entering steady.entering apart⟩

/-- An entry for a cycle that is not closed. -/
theorem enter (steady : e.Steady) {r : Reservation} {cycle : OwnedCycle}
    (stored : e.cycles.get? r.intent.cycleId = some cycle) (opened : cycle.state.closed = false) :
    (e.step (.enter r)).Steady := by
  refine ⟨Engine.step_sound steady.sound _, steady.step_closed _, ?_⟩
  rw [Engine.step]
  split
  next =>
    split
    next =>
      intro other held
      obtain rfl := Option.some.inj held
      exact ⟨cycle, stored, opened⟩
    next => exact steady.entering
  next => exact steady.entering

theorem initial (lease : Option Lease) : (Engine.initial lease).Steady where
  sound := initial_sound lease
  closed _ _ stored := nomatch stored
  entering _ held := nomatch held

end Engine.Steady

/-- A thread with a task in hand goes on with it, goes on to one that reserves nothing, or is done. -/
theorem Engine.step_task {e : Engine} {t : Task} (held : e.job = .task t) (m : Move) :
    (e.step m).job = .idle ∨ ∃ t', (e.step m).job = .task t' ∧ (t' = t ∨ ∀ r, t' ≠ .reserving r) := by
  have same : (e.step m).job = e.job → (e.step m).job = .idle ∨
      ∃ t', (e.step m).job = .task t' ∧ (t' = t ∨ ∀ r, t' ≠ .reserving r) :=
    fun kept => .inr ⟨t, kept.trans held, .inl rfl⟩
  cases m with
  | crash => exact .inl rfl
  | lease => exact same rfl
  | report order =>
    refine same ?_
    rw [Engine.step]
    unfold Engine.report
    repeat' split
    all_goals rfl
  | deliver d =>
    refine same ?_
    rw [Engine.step]
    unfold Engine.deliver
    repeat' split
    all_goals rfl
  | refresh r extra now found =>
    refine same ?_
    rw [Engine.step, held]
    cases t with
    | claiming =>
      dsimp only
      cases done : e.refreshed r extra now found with
      | none => exact held
      | some next => exact (Engine.refreshed_orders done).2.trans held
    | _ => exact held
  | act ownerId outside taken =>
    rw [Engine.step, held]
    dsimp only
    unfold Engine.act Engine.after
    split
    next =>
      cases following : (transact e.store ownerId outside t).2 with
      | none => exact .inl rfl
      | some t' =>
        refine .inr ⟨t', rfl, .inr fun r same => ?_⟩
        exact transact_unreserving e.store ownerId outside t r (following.trans (congrArg some same))
    next => exact .inr ⟨t, held, .inl rfl⟩
  | openCycle | requestExit | enter | reconcile | cancel | exit | size =>
    refine same ?_
    rw [Engine.step, held]
    exact held

end TradeAgent.Scalp
