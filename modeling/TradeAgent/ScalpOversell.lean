import TradeAgent.ScalpEngine
import TradeAgent.ScalpOrderConvergence
import TradeAgent.ScalpOwnership

/-! A cycle never oversells. What its sells have filled and may still fill is at most what its
buys have filled: an exit is sized right after a refresh, with no order of the cycle open, and
from then on an order can only take back what it may still fill. -/
namespace TradeAgent.Scalp

/-- What an order has filled and may still fill. -/
def OwnedOrder.exposure (row : OwnedOrder) : ℚ :=
  if row.status.final then row.acknowledged else row.intent.quantity

def committed (cycleId : String) (row : OwnedOrder) : ℚ :=
  if row.intent.cycleId = cycleId ∧ row.intent.side = .sell then row.exposure else 0

def bought (cycleId : String) (row : OwnedOrder) : ℚ :=
  if row.intent.cycleId = cycleId ∧ row.intent.side = .buy then row.acknowledged else 0

def Balanced (orders : Dict String OwnedOrder) : Prop :=
  ∀ cycleId, orders.total (committed cycleId) ≤ orders.total (bought cycleId)

/-- A change of a row that commits it to no more and takes back none of its fills. -/
structure Milder (row row' : OwnedOrder) : Prop where
  intent : row'.intent = row.intent
  exposure : row'.exposure ≤ row.exposure
  acknowledged : row.acknowledged ≤ row'.acknowledged

theorem Milder.balanced {orders : Dict String OwnedOrder} {clientId : String} {row row' : OwnedOrder}
    (milder : Milder row row') (stored : orders.get? clientId = some row) (balanced : Balanced orders) :
    Balanced (orders.set clientId row') := by
  intro cycleId
  rw [Dict.total_set_of_get stored, Dict.total_set_of_get stored]
  have sells : committed cycleId row' ≤ committed cycleId row := by
    unfold committed
    rw [milder.intent]
    split
    next => exact milder.exposure
    next => exact le_refl _
  have buys : bought cycleId row ≤ bought cycleId row' := by
    unfold bought
    rw [milder.intent]
    split
    next => exact milder.acknowledged
    next => exact le_refl _
  linarith [balanced cycleId]

section Sums

variable {s : Store} {cycleId : String}

theorem filledOn_cycleOrders (side : Side) : filledOn side (cycleOrders s cycleId) =
    s.orders.total fun row =>
      if row.intent.cycleId = cycleId ∧ row.intent.side = side then row.acknowledged else 0 := by
  rw [filledOn, cycleOrders, List.filter_filter, Dict.total_filter]
  exact Dict.total_congr fun _ row _ => by simp [and_comm]

theorem filledOn_buy : filledOn .buy (cycleOrders s cycleId) = s.orders.total (bought cycleId) :=
  filledOn_cycleOrders .buy

/-- Filled sells and the unfilled rest of unresolved ones are what the cycle is committed to. -/
theorem committed_total : filledOn .sell (cycleOrders s cycleId) +
    (((cycleOrders s cycleId).filter fun row => row.intent.side = .sell && !row.status.final).map
      fun row => row.intent.quantity - row.acknowledged).sum = s.orders.total (committed cycleId) := by
  rw [filledOn_cycleOrders, cycleOrders, List.filter_filter, Dict.total_filter]
  unfold Dict.total
  induction s.orders.entries with
  | nil => simp
  | cons e rest ih =>
    simp only [List.map_cons, List.sum_cons]
    rw [← ih]
    by_cases sells : e.2.intent.cycleId = cycleId ∧ e.2.intent.side = .sell
    · cases ended : e.2.status.final <;>
        simp [committed, OwnedOrder.exposure, sells, ended] <;> ring
    · have others : ¬((decide (e.2.intent.side = .sell) && !e.2.status.final &&
          decide (e.2.intent.cycleId = cycleId)) = true) := by
        simp only [Bool.and_eq_true, decide_eq_true_eq]
        exact fun all => sells ⟨all.2, all.1.1⟩
      simp only [committed, if_neg sells, if_neg others]
      ring

/-- With every order of a cycle resolved, it is committed to what its sells have filled. -/
theorem committed_resolved (resolved : ∀ row ∈ cycleOrders s cycleId, row.status.final) :
    s.orders.total (committed cycleId) = filledOn .sell (cycleOrders s cycleId) := by
  rw [filledOn_cycleOrders]
  refine Dict.total_congr fun clientId row stored => ?_
  unfold committed
  split
  next sells =>
    have member : row ∈ cycleOrders s cycleId := by
      simpa [cycleOrders, sells.1] using Dict.mem_values.mpr ⟨clientId, stored⟩
    rw [OwnedOrder.exposure, if_pos (resolved row member)]
  next => rfl

end Sums

/-- The claimed order the thread may still hand to the broker. -/
def Job.bound : Job → Option String
  | .task (.fencing clientId _) | .task (.submitting clientId) => some clientId
  | _ => none

/-- The broker never got the order, and never will. -/
structure Withheld (broker : Broker) (bound : Option String) (clientId : String) (row : OwnedOrder) :
    Prop where
  unseen : broker clientId = none
  started : row.dispatchState ≠ .intent
  unbound : bound ≠ some clientId

structure RowSound (broker : Broker) (bound : Option String) (clientId : String) (row : OwnedOrder) :
    Prop where
  positive : 0 < row.intent.quantity
  known : ∀ p ∈ row.broker, p ∈ broker.reported clientId
  intended : row.dispatchState = .intent → broker clientId = none
  settled : row.status.final → (∃ p ∈ row.broker, p.status.final) ∨ Withheld broker bound clientId row
  refused : row.submissionError.any SubmissionError.definitive → Withheld broker bound clientId row

/-- Once a report is final, every later one has its fill. -/
def Broker.Lawful (broker : Broker) : Prop := ∀ clientId,
  (broker.reported clientId).Pairwise fun later earlier =>
    earlier.status.final → later.filledQuantity = earlier.filledQuantity

/-- An order the broker never got, whose claim is spent. -/
structure Unsent (s : Store) (broker : Broker) (clientId : String) : Prop where
  unseen : broker clientId = none
  started : ∃ row, s.orders.get? clientId = some row ∧ row.dispatchState ≠ .intent

/-- An exit that its cycle's fills cover, with no order of the cycle open. -/
structure ExitReady (s : Store) (cycleId : String) (quantity : ℚ) : Prop where
  resolved : ∀ row ∈ cycleOrders s cycleId, row.status.final
  within : quantity ≤ positive (netBought (cycleOrders s cycleId))

def TaskReady (s : Store) (broker : Broker) : Task → Prop
  | .reserving r => r.intent.side = .sell → ExitReady s r.intent.cycleId r.intent.quantity
  | .fencing clientId _ | .submitting clientId | .unsent clientId | .rejecting clientId _ =>
    Unsent s broker clientId
  | .failed clientId definitive _ _ | .lookingUp clientId definitive
  | .inspecting clientId definitive | .marking clientId definitive =>
    definitive → Unsent s broker clientId
  | .updating clientId order _ => order ∈ broker.reported clientId
  | .expiring clientId => broker clientId = none
  | _ => True

/-- What the thread knows of what it has in hand. -/
def Engine.Ready (e : Engine) : Job → Prop
  | .idle => True
  | .exiting cycleId => ∀ row ∈ cycleOrders e.store cycleId, row.status.final
  | .sizing cycleId => ∀ cycle, e.cycles.get? cycleId = some cycle →
      ExitReady e.store cycleId (ledgerAmount cycle Ledger.ownedQuantity)
  | .task t => TaskReady e.store e.broker t

structure CycleSound (cycleId : String) (cycle : OwnedCycle) : Prop where
  named : cycle.cycleId = cycleId
  charged : cycle.Charged
  closed : cycle.state.closed → ledgerAmount cycle Ledger.ownedQuantity ≤ 0

structure Engine.Sound (e : Engine) : Prop where
  rows : ∀ clientId row, e.store.orders.get? clientId = some row →
    RowSound e.broker e.job.bound clientId row
  handed : ∀ clientId, e.store.orders.get? clientId = none → e.broker clientId = none
  lawful : e.broker.Lawful
  cycles : ∀ cycleId cycle, e.cycles.get? cycleId = some cycle → CycleSound cycleId cycle
  balanced : Balanced e.store.orders
  ready : e.Ready e.job

section Rows

variable {broker : Broker} {bound : Option String} {clientId : String} {row : OwnedOrder}

/-- The thread may let go of what it had claimed. -/
theorem RowSound.unbind (sound : RowSound broker bound clientId row) {next : Option String}
    (unbound : Withheld broker bound clientId row → next ≠ some clientId) :
    RowSound broker next clientId row where
  positive := sound.positive
  known := sound.known
  intended := sound.intended
  settled ended := (sound.settled ended).imp_right fun w => ⟨w.unseen, w.started, unbound w⟩
  refused refused := let w := sound.refused refused; ⟨w.unseen, w.started, unbound w⟩

theorem RowSound.elsewhere (sound : RowSound broker bound clientId row) {broker' : Broker}
    (unmoved : broker' clientId = broker clientId) : RowSound broker' bound clientId row where
  positive := sound.positive
  known p member := by
    rw [Broker.reported, unmoved]
    exact sound.known p member
  intended state := unmoved.trans (sound.intended state)
  settled ended := (sound.settled ended).imp_right fun w => ⟨unmoved.trans w.unseen, w.started, w.unbound⟩
  refused refused := let w := sound.refused refused; ⟨unmoved.trans w.unseen, w.started, w.unbound⟩

theorem Broker.Lawful.update (lawful : broker.Lawful) {history : List AlpacaPaperOrder}
    (fixed : history.Pairwise fun later earlier =>
      earlier.status.final → later.filledQuantity = earlier.filledQuantity) :
    Broker.Lawful (Function.update broker clientId (some history)) := by
  intro other
  unfold Broker.reported
  by_cases here : other = clientId
  · subst here
    simpa using fixed
  · rw [Function.update_of_ne here]
    exact lawful other

theorem Broker.Lawful.fills (lawful : broker.Lawful) {p order : AlpacaPaperOrder}
    (first : p ∈ broker.reported clientId) (second : order ∈ broker.reported clientId)
    (ended : p.status.final) (done : order.status.final) : p.filledQuantity = order.filledQuantity := by
  let Agree (a b : AlpacaPaperOrder) : Prop :=
    a.status.final → b.status.final → a.filledQuantity = b.filledQuantity
  have : Std.Symm Agree := ⟨fun _ _ same hb ha => (same ha hb).symm⟩
  have agree : (broker.reported clientId).Pairwise Agree :=
    (lawful clientId).imp fun fixed _ done => fixed done
  exact agree.forall_of_forall (fun _ _ _ _ => rfl) first second ended done

theorem not_seen (unseen : broker clientId = none) {order : AlpacaPaperOrder} :
    order ∉ broker.reported clientId := by
  simp [Broker.reported, unseen]

/-- An update the order takes neither opens it again nor moves a fill it knew to be final. -/
theorem RowSound.update (sound : RowSound broker bound clientId row) (lawful : broker.Lawful)
    {order : AlpacaPaperOrder} (known : order ∈ broker.reported clientId) (now : Instant)
    (matching : row.intent.Matches order) (first : Option Instant)
    (fresh : ignored row.broker row.status order = .ok false) :
    Milder row (row.store order matching now first) ∧
    RowSound broker bound clientId (row.store order matching now first) := by
  obtain ⟨-, grows, -, stays⟩ := ignored_false_iff.mp fresh
  have exposure : (row.store order matching now first).exposure ≤ row.exposure := by
    have stored : (row.store order matching now first).exposure =
        if order.status.final then order.filledQuantity else row.intent.quantity := rfl
    rw [stored, OwnedOrder.exposure]
    by_cases ended : row.status.final
    · rw [if_pos ended, if_pos (stays ended)]
      rcases sound.settled ended with ⟨p, held, final⟩ | withheld
      · rw [OwnedOrder.acknowledged, Option.mem_def.mp held]
        exact (lawful.fills (sound.known p held) known final (stays ended)).ge
      · exact absurd known (not_seen withheld.unseen)
    · rw [if_neg ended]
      split
      next => exact matching.within
      next => exact le_refl _
  refine ⟨⟨rfl, exposure, grows⟩, ?_⟩
  constructor
  case positive => exact sound.positive
  case known =>
    rintro p ⟨⟩
    exact known
  case intended => rintro ⟨⟩
  case settled => exact fun ended => .inl ⟨order, rfl, ended⟩
  case refused =>
    exact fun refused => absurd known (not_seen (sound.refused refused).unseen)

/-- Closing an order the broker never got, whose claim is spent. -/
theorem RowSound.close (sound : RowSound broker bound clientId row) {row' : OwnedOrder}
    (unseen : broker clientId = none) (unbound : bound ≠ some clientId)
    (intent : row'.intent = row.intent) (stored : row'.broker = row.broker)
    (started : row'.dispatchState ≠ .intent) (ended : row'.status.final) :
    Milder row row' ∧ RowSound broker bound clientId row' := by
  have same : row'.acknowledged = row.acknowledged := by
    rw [OwnedOrder.acknowledged, OwnedOrder.acknowledged, stored]
  refine ⟨⟨intent, ?_, same.ge⟩, ?_⟩
  · rw [OwnedOrder.exposure, if_pos ended, same, OwnedOrder.exposure]
    split
    next => exact le_refl _
    next => exact row.acknowledged_within sound.positive.le
  · exact ⟨intent ▸ sound.positive, fun p member => sound.known p (stored ▸ member),
      fun state => absurd state started, fun _ => .inr ⟨unseen, started, unbound⟩,
      fun _ => ⟨unseen, started, unbound⟩⟩

/-- A change that keeps the status, the reports and that the order was started. -/
theorem RowSound.keep (sound : RowSound broker bound clientId row) {row' : OwnedOrder}
    (intent : row'.intent = row.intent) (stored : row'.broker = row.broker)
    (status : row'.status = row.status) (state : row.dispatchState ≠ .intent → row'.dispatchState ≠ .intent)
    (intended : row'.dispatchState = .intent → row.dispatchState = .intent)
    (refused : row'.submissionError.any SubmissionError.definitive →
      Withheld broker bound clientId row') :
    Milder row row' ∧ RowSound broker bound clientId row' := by
  refine ⟨⟨intent, ?_, ?_⟩, ?_⟩
  · rw [OwnedOrder.exposure, OwnedOrder.exposure, status, intent, OwnedOrder.acknowledged, stored]
    exact le_refl _
  · rw [OwnedOrder.acknowledged, OwnedOrder.acknowledged, stored]
  · exact ⟨intent ▸ sound.positive, fun p member => sound.known p (stored ▸ member),
      fun now => sound.intended (intended now), fun ended => by
        rw [stored]
        exact (sound.settled (status ▸ ended)).imp_right fun w => ⟨w.unseen, state w.started, w.unbound⟩,
      refused⟩

/-- A change of nothing but its times. -/
theorem RowSound.touch (sound : RowSound broker bound clientId row) {row' : OwnedOrder}
    (intent : row'.intent = row.intent) (stored : row'.broker = row.broker)
    (status : row'.status = row.status) (state : row'.dispatchState = row.dispatchState)
    (error : row'.submissionError = row.submissionError) :
    Milder row row' ∧ RowSound broker bound clientId row' :=
  sound.keep intent stored status (state ▸ id) (state ▸ id) fun refused =>
    let w := sound.refused (error ▸ refused); ⟨w.unseen, state ▸ w.started, w.unbound⟩

end Rows

section Step

variable {e : Engine}

/-- The thread goes on with the rows as they are. -/
theorem Engine.Sound.advance (sound : e.Sound) (store : Store) (same : store.orders = e.store.orders)
    (job : Job) (bound : job.bound = none ∨ job.bound = e.job.bound)
    (ready : { e with store := store, job := job }.Ready job) :
    { e with store := store, job := job }.Sound where
  rows clientId row stored := by
    refine (sound.rows clientId row (same ▸ stored)).unbind fun withheld => ?_
    rcases bound with free | held
    · simp [free]
    · exact held ▸ withheld.unbound
  handed clientId absent := sound.handed clientId (same ▸ absent)
  lawful := sound.lawful
  cycles := sound.cycles
  balanced := by
    change Balanced store.orders
    exact same ▸ sound.balanced
  ready := ready

theorem Engine.Sound.next (sound : e.Sound) (job : Job) (bound : job.bound = none ∨ job.bound = e.job.bound)
    (ready : { e with job := job }.Ready job) : { e with job := job }.Sound :=
  sound.advance e.store rfl job bound ready

theorem Engine.Sound.idle (sound : e.Sound) : { e with job := .idle }.Sound :=
  sound.next .idle (.inl rfl) trivial

/-- The thread writes one row and goes on. -/
theorem Engine.Sound.write (sound : e.Sound) {clientId : String} {row row' : OwnedOrder} {store : Store}
    (job : Job) (stored : e.store.orders.get? clientId = some row)
    (wrote : store.orders = e.store.orders.set clientId row') (milder : Milder row row')
    (kept : RowSound e.broker job.bound clientId row')
    (bound : ∀ other, other ≠ clientId → job.bound = some other → e.job.bound = some other)
    (ready : { e with store := store, job := job }.Ready job) :
    { e with store := store, job := job }.Sound where
  rows other found at_ := by
    simp only [wrote, Dict.get?_set] at at_
    split at at_
    next same => cases at_; exact same ▸ kept
    next apart =>
      exact (sound.rows other found at_).unbind fun withheld held =>
        withheld.unbound (bound other (Ne.symm apart) held)
  handed other absent := by
    simp only [wrote, Dict.get?_set] at absent
    split at absent
    next => cases absent
    next => exact sound.handed other absent
  lawful := sound.lawful
  cycles := sound.cycles
  balanced := by
    change Balanced store.orders
    rw [wrote]
    exact milder.balanced stored sound.balanced
  ready := ready

theorem Unsent.withheld {clientId : String} {row : OwnedOrder}
    (unsent : Unsent e.store e.broker clientId) (stored : e.store.orders.get? clientId = some row) :
    row.dispatchState ≠ .intent := by
  obtain ⟨_, found, started⟩ := unsent.started
  exact Option.some.inj (stored.symm.trans found) ▸ started

/-- Expiring an order the broker never got leaves the thread with nothing in hand. -/
theorem Engine.Sound.expireUnsent (sound : e.Sound) {clientId : String} (now : Instant)
    (reason : Option String) (unseen : e.broker clientId = none) :
    { e with store := e.store.expireUnsent clientId now reason, job := .idle }.Sound := by
  unfold Store.expireUnsent
  split
  next row stored =>
    have kept := ((sound.rows clientId row stored).unbind fun _ => (by simp : none ≠ some clientId)).close
      unseen (by simp) (rfl : (row.expireUnsent now reason).intent = row.intent) rfl
      (by simp [OwnedOrder.expireUnsent]) rfl
    exact sound.write .idle stored rfl kept.1 kept.2 (fun _ _ held => nomatch held) trivial
  next => exact sound.idle

/-- A reservation commits its cycle to no more than the fills that are left. -/
theorem Engine.Sound.reserve (sound : e.Sound) {r : Reservation} (now : Instant)
    (ready : r.intent.side = .sell → ExitReady e.store r.intent.cycleId r.intent.quantity)
    (absent : e.store.orders.get? r.intent.clientOrderId = none) :
    { e with
      store := { e.store with orders := e.store.orders.set r.intent.clientOrderId (r.order now) }
      job := .task (.dispatching r.intent.clientOrderId) }.Sound where
  rows other found at_ := by
    simp only [Dict.get?_set] at at_
    split at at_
    next same =>
      cases at_
      exact ⟨r.positive, by simp [Reservation.order], fun _ => sound.handed other (same ▸ absent),
        by simp [Reservation.order, OrderStatus.final], by simp [Reservation.order]⟩
    next => exact (sound.rows other found at_).unbind fun _ held => by cases held
  handed other none_ := by
    simp only [Dict.get?_set] at none_
    split at none_
    next => cases none_
    next => exact sound.handed other none_
  lawful := sound.lawful
  cycles := sound.cycles
  balanced cycleId := by
    have sells := e.store.orders.total_set r.intent.clientOrderId (r.order now) (committed cycleId)
    have buys := e.store.orders.total_set r.intent.clientOrderId (r.order now) (bought cycleId)
    simp only [absent, Option.map_none, Option.getD_none, add_zero] at sells buys
    have unfilled : bought cycleId (r.order now) = 0 := by
      unfold bought
      split <;> rfl
    rw [sells, buys, unfilled, add_zero]
    have before := sound.balanced cycleId
    by_cases own : r.intent.cycleId = cycleId ∧ r.intent.side = .sell
    · obtain ⟨resolved, within⟩ := ready own.2
      rw [own.1] at resolved within
      have adds : committed cycleId (r.order now) = r.intent.quantity := if_pos own
      have filled := committed_resolved resolved
      rw [filled, ← filledOn_buy] at before
      rw [netBought, positive_of_nonneg (by linarith)] at within
      rw [filled, ← filledOn_buy, adds]
      linarith
    · have adds : committed cycleId (r.order now) = 0 := if_neg own
      rwa [adds, add_zero]
  ready := trivial

/-- A change of an order's row, where there is one. -/
theorem Engine.Sound.modify (sound : e.Sound) (clientId : String) (change : OwnedOrder → OwnedOrder)
    (job : Job) (unbound : job.bound = none)
    (kept : ∀ row, e.store.orders.get? clientId = some row →
      Milder row (change row) ∧ RowSound e.broker none clientId (change row))
    (ready : ∀ store : Store, store.orders = e.store.orders.modify clientId change →
      { e with store := store, job := job }.Ready job) :
    { e with store := { e.store with orders := e.store.orders.modify clientId change }, job := job }.Sound := by
  have goal := ready { e.store with orders := e.store.orders.modify clientId change } rfl
  cases stored : e.store.orders.get? clientId with
  | none =>
    rw [Dict.modify_of_absent stored] at goal ⊢
    exact sound.next job (.inl unbound) goal
  | some row =>
    rw [Dict.modify_of_get stored] at goal ⊢
    obtain ⟨milder, sound'⟩ := kept row stored
    exact sound.write job stored rfl milder (unbound ▸ sound')
      (fun other _ held => by rw [unbound] at held; cases held) goal

/-- The claim moves an intent, which nobody has seen, to the thread's hands. -/
theorem Engine.Sound.claim (sound : e.Sound) {clientId : String} {row : OwnedOrder} (now : Instant)
    (stored : e.store.orders.get? clientId = some row) (intended : row.dispatchState = .intent) :
    { e with
      store := { e.store with orders := e.store.orders.set clientId (row.claim now) }
      job := .task (.fencing clientId (row.claim now)) }.Sound := by
  have before := sound.rows clientId row stored
  have unseen := before.intended intended
  have started : (row.claim now).dispatchState ≠ .intent := by simp [OwnedOrder.claim]
  have unfilled : row.exposure = row.intent.quantity := by
    rw [OwnedOrder.exposure, if_neg]
    intro ended
    rcases before.settled ended with ⟨p, held, -⟩ | withheld
    · exact not_seen unseen (before.known p held)
    · exact withheld.started intended
  refine sound.write (.task (.fencing clientId _)) stored rfl ⟨rfl, unfilled.ge, le_refl _⟩ ?_ ?_ ?_
  · exact ⟨before.positive, before.known, fun state => absurd state started,
      fun ended => (nomatch ended), fun refused => absurd intended (before.refused refused).started⟩
  · rintro other apart ⟨⟩
    exact absurd rfl apart
  · exact ⟨unseen, row.claim now, by simp, started⟩

/-- The call: the order has no final row and no report, whatever the broker makes of it. -/
theorem Engine.Sound.submit (sound : e.Sound) {clientId : String}
    (unsent : Unsent e.store e.broker clientId) (held : e.job.bound = some clientId) (store : Store)
    (same : store.orders = e.store.orders) (history : List AlpacaPaperOrder)
    (short : history.Pairwise fun later earlier =>
      earlier.status.final → later.filledQuantity = earlier.filledQuantity) (job : Job) (unbound : job.bound = none)
    (ready : { e with
      store := store, broker := Function.update e.broker clientId (some history), job := job }.Ready job) :
    { e with
      store := store, broker := Function.update e.broker clientId (some history), job := job }.Sound where
  rows other row stored := by
    have before := sound.rows other row (by rw [← same]; exact stored)
    rw [show Job.bound _ = none from unbound]
    by_cases here : other = clientId
    · subst here
      have spent : ¬Withheld e.broker e.job.bound other row := fun withheld => withheld.unbound held
      refine ⟨before.positive, fun p member => ?_, fun intended => ?_, fun ended => ?_, fun refused => ?_⟩
      · exact absurd (before.known p member) (not_seen unsent.unseen)
      · exact absurd intended (unsent.withheld (by rw [← same]; exact stored))
      · exact .inl ((before.settled ended).resolve_right spent)
      · exact absurd (before.refused refused) spent
    · exact (before.unbind fun _ => (by simp : none ≠ some other)).elsewhere (by simp [here])
  handed other absent := by
    rw [show store.orders.get? other = e.store.orders.get? other by rw [same]] at absent
    have apart : other ≠ clientId := by
      rintro rfl
      obtain ⟨row, stored, -⟩ := unsent.started
      rw [stored] at absent
      cases absent
    simpa [apart] using sound.handed other absent
  lawful := sound.lawful.update short
  cycles := sound.cycles
  balanced := by
    change Balanced store.orders
    exact same ▸ sound.balanced
  ready := ready

/-- An update the order takes or ignores, or that raises. -/
theorem Engine.Sound.receive (sound : e.Sound) {clientId : String} {row row' : OwnedOrder}
    {order : AlpacaPaperOrder} {now received : Instant} {outcome : Outcome}
    (stored : e.store.orders.get? clientId = some row) (known : order ∈ e.broker.reported clientId)
    (updated : Updated row order now received (.ok (row', outcome))) :
    Milder row row' ∧ RowSound e.broker e.job.bound clientId row' ∧
    (row.status.final → row'.status.final) := by
  have before := sound.rows clientId row stored
  cases updated with
  | ignored => exact ⟨⟨rfl, le_refl _, le_refl _⟩, before, id⟩
  | stored matching first _ fresh =>
    obtain ⟨milder, kept⟩ := before.update sound.lawful known now matching first fresh
    exact ⟨milder, kept, (ignored_false_iff.mp fresh).2.2.2⟩

theorem Unsent.modify {s store : Store} {broker : Broker} {clientId : String}
    (unsent : Unsent s broker clientId) {change : OwnedOrder → OwnedOrder}
    (wrote : store.orders = s.orders.modify clientId change)
    (started : ∀ row, row.dispatchState ≠ .intent → (change row).dispatchState ≠ .intent) :
    Unsent store broker clientId := by
  obtain ⟨unseen, row, stored, away⟩ := unsent
  refine ⟨unseen, change row, ?_, started row away⟩
  rw [wrote, Dict.modify_of_get stored, Dict.get?_set_same]

theorem Engine.Sound.act (sound : e.Sound) {t : Task} (held : e.job = .task t) (ownerId : String)
    (outside : Outside) (taken : Bool) (answers : e.answers t outside.reply) :
    (e.after (e.called t outside.reply taken) (transact e.store ownerId outside t)).Sound := by
  have ready : TaskReady e.store e.broker t := by simpa [Engine.Ready, held] using sound.ready
  have free : ∀ clientId row, e.store.orders.get? clientId = some row →
      RowSound e.broker none clientId row :=
    fun clientId row stored => (sound.rows clientId row stored).unbind fun _ => by simp
  cases t with
  | reserving r =>
    rw [transact]
    split
    next =>
      cases stored : e.store.orders.get? r.intent.clientOrderId with
      | none =>
        have next := sound.reserve outside.now ready stored
        rwa [← Dict.setDefault_of_absent stored] at next
      | some row =>
        rw [Dict.setDefault_of_get stored]
        exact sound.next (.task (.dispatching _)) (.inl rfl) trivial
    next => exact sound.idle
  | dispatching clientId =>
    rw [transact]
    split
    next =>
      split
      next => exact sound.next (.task (.claiming clientId)) (.inl rfl) trivial
      next => exact sound.idle
    next => exact sound.idle
  | claiming clientId =>
    rw [transact]
    split
    next row stored =>
      split
      next passes =>
        rw [Bool.and_eq_true, decide_eq_true_eq] at passes
        exact sound.claim outside.now stored passes.2
      next => exact sound.idle
    next => exact sound.idle
  | fencing clientId row =>
    have bound : e.job.bound = some clientId := by rw [held]; rfl
    have drop := sound.next (.task (.unsent clientId)) (.inl rfl) ready
    rw [transact]
    split
    next =>
      split
      next =>
        split
        next => exact sound.expireUnsent _ _ ready.unseen
        next =>
          split
          next => exact sound.next (.task (.submitting clientId)) (.inr bound.symm) ready
          next => exact drop
      next => exact drop
    next => exact drop
  | submitting clientId =>
    have bound : e.job.bound = some clientId := by rw [held]; rfl
    let logged : Store := { e.store with log := .submitted clientId :: e.store.log }
    -- An answer that was lost leaves open whether the broker has the order.
    have lost : ∀ job : Job, job.bound = none → (∀ broker, { e with
        store := logged, broker := broker, job := job }.Ready job) → { e with
        store := logged
        broker := if taken then Function.update e.broker clientId (some []) else e.broker
        job := job }.Sound := by
      intro job unbound known
      split
      next => exact sound.submit ready bound logged rfl [] .nil job unbound (known _)
      next => exact sound.advance logged rfl job (.inl unbound) (known _)
    rw [transact]
    cases reply : outside.reply with
    | snapshot order =>
      exact sound.submit ready bound logged rfl [order] (List.pairwise_singleton _ _)
        (.task (.updating clientId order none)) rfl (by simp [Engine.Ready, TaskReady, Broker.reported])
    | http definitive rateLimited statusCode =>
      cases definitive with
      | true =>
        exact sound.advance logged rfl (.task (.failed clientId true rateLimited statusCode)) (.inl rfl)
          fun _ => ⟨ready.unseen, ready.started⟩
      | false =>
        exact lost (.task (.failed clientId false rateLimited statusCode)) rfl fun _ never => nomatch never
    | nothing | raised | fence => exact lost .idle rfl fun _ => trivial
  | unsent clientId => exact sound.expireUnsent _ _ ready.unseen
  | failed clientId definitive rateLimited statusCode =>
    have kept : ∀ row, e.store.orders.get? clientId = some row →
        Milder row (row.unknown definitive statusCode) ∧
        RowSound e.broker none clientId (row.unknown definitive statusCode) := by
      intro row stored
      refine (free clientId row stored).keep rfl rfl rfl (by simp [OwnedOrder.unknown])
        (by simp [OwnedOrder.unknown]) fun refused => ?_
      have unsent := ready (by simpa [OwnedOrder.unknown, SubmissionError.definitive] using refused)
      exact ⟨unsent.unseen, by simp [OwnedOrder.unknown], by simp⟩
    rw [transact]
    cases rateLimited with
    | true => exact sound.modify clientId _ .idle rfl kept fun _ _ => trivial
    | false =>
      exact sound.modify clientId _ (.task (.lookingUp clientId definitive)) rfl kept fun store wrote known =>
        (ready known).modify wrote fun _ _ => by simp [OwnedOrder.unknown]
  | lookingUp clientId definitive =>
    rw [transact]
    cases reply : outside.reply with
    | snapshot order =>
      simp only [reply, Engine.answers, decide_eq_true_eq] at answers
      exact sound.next (.task (.updating clientId order none)) (.inl rfl) answers
    | nothing | raised | fence | http =>
      cases definitive with
      | true => exact sound.next (.task (.rejecting clientId false)) (.inl rfl) (ready rfl)
      | false => exact sound.idle
  | rejecting clientId reconciled =>
    refine sound.modify clientId _ .idle rfl (fun row stored => ?_) fun _ _ => trivial
    exact (free clientId row stored).close ready.unseen (by simp) rfl rfl (by simp [OwnedOrder.reject]) rfl
  | updating clientId snapshot received =>
    rw [transact]
    split
    next row stored =>
      split
      next row' outcome result =>
        have updated := updateOrder_updated row snapshot outside.now received
        rw [result] at updated
        obtain ⟨milder, kept, -⟩ := sound.receive stored ready updated
        exact sound.write .idle stored rfl milder (kept.unbind fun _ => (by simp : none ≠ some clientId))
          (fun _ _ held => nomatch held) trivial
      next => exact sound.idle
    next => exact sound.idle
  | reconciling clientId pass =>
    rw [transact]
    cases stored : e.store.orders.get? clientId with
    | none => exact sound.idle
    | some row =>
      have known := sound.rows clientId row stored
      simp only [Option.bind_some, reconcileRow]
      split
      next intended => exact sound.next (.task (.expiring clientId)) (.inl rfl) (known.intended intended)
      next =>
        repeat' split
        next => exact sound.idle
        next =>
          refine sound.next (.task (.inspecting clientId _)) (.inl rfl) fun refused => ?_
          exact let w := known.refused refused; ⟨w.unseen, row, stored, w.started⟩
        next => exact sound.idle
  | expiring clientId =>
    rw [transact]
    split
    next => exact sound.expireUnsent _ _ ready
    next => exact sound.idle
  | inspecting clientId definitive =>
    rw [transact]
    cases reply : outside.reply with
    | snapshot order =>
      simp only [reply, Engine.answers, decide_eq_true_eq] at answers
      exact sound.next (.task (.updating clientId order none)) (.inl rfl) answers
    | nothing => exact sound.next (.task (.marking clientId definitive)) (.inl rfl) ready
    | raised | fence | http => exact sound.idle
  | marking clientId definitive =>
    have kept : ∀ row, e.store.orders.get? clientId = some row →
        Milder row { row with lastReconciledAt := some outside.now } ∧
        RowSound e.broker none clientId { row with lastReconciledAt := some outside.now } :=
      fun row stored => (free clientId row stored).touch rfl rfl rfl rfl rfl
    rw [transact]
    cases definitive with
    | true =>
      exact sound.modify clientId _ (.task (.rejecting clientId true)) rfl kept fun store wrote =>
        (ready rfl).modify wrote fun _ => id
    | false => exact sound.modify clientId _ .idle rfl kept fun _ _ => trivial
  | cancelling clientId pass =>
    rw [transact]
    cases stored : e.store.orders.get? clientId with
    | none => exact sound.idle
    | some row =>
      simp only [Option.bind_some, cancelRow]
      repeat' split
      all_goals first
        | exact sound.idle
        | exact sound.next (.task (.requesting clientId _ _)) (.inl rfl) trivial
        | exact sound.next (.task (.expiring clientId)) (.inl rfl)
            ((sound.rows clientId row stored).intended ‹_›)
  | requesting clientId cancelRequestedAt now =>
    rw [transact]
    split
    next =>
      exact sound.modify clientId _ (.task (.requested clientId)) rfl
        (fun row stored => (free clientId row stored).touch rfl rfl rfl rfl rfl) fun _ _ => trivial
    next => exact sound.idle
  | requested clientId =>
    rw [transact]
    split
    next => exact sound.next (.task (.finding clientId)) (.inl rfl) trivial
    next => exact sound.idle
  | finding clientId =>
    rw [transact]
    cases reply : outside.reply with
    | snapshot order =>
      simp only [reply, Engine.answers, decide_eq_true_eq] at answers
      exact sound.next (.task (.updating clientId order none)) (.inl rfl) answers
    | nothing | raised | fence | http => exact sound.idle

theorem mem_cycleOrders {s : Store} {cycleId : String} {row : OwnedOrder} :
    row ∈ cycleOrders s cycleId ↔
      (∃ clientId, s.orders.get? clientId = some row) ∧ row.intent.cycleId = cycleId := by
  rw [cycleOrders, List.mem_filter, Dict.mem_values, decide_eq_true_eq]

/-- An update leaves the resolved orders of a cycle resolved. -/
theorem resolved_set {s store : Store} {cycleId clientId : String} {row row' : OwnedOrder}
    (resolved : ∀ row ∈ cycleOrders s cycleId, row.status.final)
    (stored : s.orders.get? clientId = some row) (wrote : store.orders = s.orders.set clientId row')
    (intent : row'.intent = row.intent) (stays : row.status.final → row'.status.final) :
    ∀ row ∈ cycleOrders store cycleId, row.status.final := by
  intro other member
  obtain ⟨⟨key, found⟩, own⟩ := mem_cycleOrders.mp member
  rw [wrote, Dict.get?_set] at found
  split at found
  next =>
    cases found
    exact stays (resolved row (mem_cycleOrders.mpr ⟨⟨clientId, stored⟩, intent ▸ own⟩))
  next => exact resolved other (mem_cycleOrders.mpr ⟨⟨key, found⟩, own⟩)

theorem Engine.Sound.deliver (sound : e.Sound) (d : Delivery)
    (free : e.job = .idle ∨ (∃ cycleId, e.job = .exiting cycleId) ∨
      ∃ clientId, e.job = .task (.claiming clientId)) : (e.deliver d).Sound := by
  unfold Engine.deliver
  split
  next row stored =>
    split
    next known =>
      obtain ⟨received, updated⟩ := d.updated row
      have kept : Milder row (Scalp.deliver row d) ∧
          RowSound e.broker e.job.bound d.snapshot.clientOrderId (Scalp.deliver row d) ∧
          (row.status.final → (Scalp.deliver row d).status.final) := by
        unfold Scalp.deliver
        cases result : d.apply row with
        | error =>
          exact ⟨⟨rfl, le_refl _, le_refl _⟩, sound.rows _ row stored, id⟩
        | ok taken =>
          rw [result] at updated
          exact sound.receive stored known updated
      obtain ⟨milder, kept, stays⟩ := kept
      refine sound.write e.job stored rfl milder kept (fun _ _ => id) ?_
      have ready := sound.ready
      rcases free with idle | ⟨cycleId, exiting⟩ | ⟨clientId, claiming⟩
      · rw [idle]
        trivial
      · rw [exiting] at ready ⊢
        exact resolved_set ready stored rfl milder.intent stays
      · rw [claiming]
        trivial
    next => exact sound
  next => exact sound

/-- After a refresh every stored cycle owns at most the net of its orders. -/
theorem Engine.Sound.refreshed (sound : e.Sound) {r : Reading} {extra : List String} {now : Instant}
    {found : Found} {next : Engine} (done : e.refreshed r extra now found = some next) :
    ∃ cycles, next = { e with cycles := cycles } ∧ ∀ cycleId cycle, cycles.get? cycleId = some cycle →
      CycleSound cycleId cycle ∧
      ledgerAmount cycle Ledger.ownedQuantity ≤ positive (netBought (cycleOrders e.store cycleId)) := by
  unfold Engine.refreshed at done
  split at done
  next p projected =>
    cases done
    refine ⟨_, rfl, fun cycleId cycle present => ?_⟩
    have made : project (e.reading r extra) now = .ok p := by
      cases result : project (e.reading r extra) now with
      | error => rw [result] at projected; cases projected
      | ok q =>
        rw [result] at projected
        exact congrArg Except.ok (commit_same projected).symm
    have charged : ∀ c ∈ (e.reading r extra).cycles, c.Charged := by
      intro c member
      obtain ⟨key, stored⟩ := Dict.mem_values.mp (List.mem_filter.mp member).1
      exact (sound.cycles key c stored).charged
    obtain ⟨covered, ids⟩ := project_covered made charged
    rcases Dict.get?_update present with wrote | ⟨old, unwritten⟩
    · obtain ⟨c, member, same⟩ := List.mem_map.mp wrote
      cases same
      obtain ⟨charged, within, closed⟩ := covered cycle member
      exact ⟨⟨rfl, charged, closed⟩, within⟩
    · -- A cycle the refresh leaves alone was closed, so it owns nothing.
      have known := sound.cycles cycleId cycle old
      have closed : cycle.state.closed := by
        by_contra active
        refine unwritten ?_
        have read : cycle ∈ (e.reading r extra).cycles :=
          List.mem_filter.mpr ⟨Dict.mem_values.mpr ⟨cycleId, old⟩, by simp [active]⟩
        have listed : cycle.cycleId ∈ p.cycles.map OwnedCycle.cycleId := by
          rw [ids]
          exact List.mem_map_of_mem (List.mem_mergeSort.mpr read)
        rw [known.named] at listed
        simpa [List.map_map, Function.comp_def] using listed
      exact ⟨known, (known.closed closed).trans (positive_nonneg _)⟩
  next => cases done

theorem Engine.Sound.report (sound : e.Sound) (order : AlpacaPaperOrder) : (e.report order).Sound := by
  unfold Engine.report
  split
  next history handed =>
    split
    next progresses =>
      have reported : e.broker.reported order.clientOrderId = history := by
        rw [Broker.reported, handed, Option.getD_some]
      have lawful := sound.lawful order.clientOrderId
      rw [reported] at lawful
      have seen : ∀ {p : AlpacaPaperOrder} {clientId : String}, p ∈ e.broker.reported clientId →
          p ∈ Broker.reported (Function.update e.broker order.clientOrderId (some (order :: history)))
            clientId := by
        intro p clientId member
        by_cases here : clientId = order.clientOrderId
        · subst here
          rw [reported] at member
          simp [Broker.reported, member]
        · simpa [Broker.reported, here] using member
      have unseen : ∀ {clientId : String}, e.broker clientId = none →
          Function.update e.broker order.clientOrderId (some (order :: history)) clientId = none := by
        intro clientId none_
        have apart : clientId ≠ order.clientOrderId := by
          rintro rfl
          rw [handed] at none_
          cases none_
        simpa [apart] using none_
      constructor
      case rows =>
        intro clientId row stored
        have before := sound.rows clientId row stored
        exact ⟨before.positive, fun p member => seen (before.known p member),
          fun intended => unseen (before.intended intended),
          fun ended => (before.settled ended).imp_right fun w => ⟨unseen w.unseen, w.started, w.unbound⟩,
          fun refused => let w := before.refused refused; ⟨unseen w.unseen, w.started, w.unbound⟩⟩
      case handed => exact fun clientId absent => unseen (sound.handed clientId absent)
      case lawful =>
        exact sound.lawful.update (List.pairwise_cons.mpr
          ⟨fun p member ended => progresses.fixed p member ended, lawful⟩)
      case cycles => exact sound.cycles
      case balanced => exact sound.balanced
      case ready =>
        have ready := sound.ready
        have unsent : ∀ {clientId : String}, Unsent e.store e.broker clientId → Unsent e.store
            (Function.update e.broker order.clientOrderId (some (order :: history))) clientId :=
          fun u => ⟨unseen u.unseen, u.started⟩
        change Engine.Ready _ e.job
        cases job : e.job with
        | idle => trivial
        | exiting cycleId => rw [job] at ready; exact ready
        | sizing cycleId => rw [job] at ready; exact ready
        | task t =>
          rw [job] at ready
          cases t with
          | reserving | dispatching | claiming | reconciling | cancelling | requesting | requested
          | finding => exact ready
          | fencing | submitting | unsent | rejecting => exact unsent ready
          | failed | lookingUp | inspecting | marking => exact fun definitive => unsent (ready definitive)
          | updating => exact seen ready
          | expiring => exact unseen ready
    next => exact sound
  next => exact sound

theorem exitReservation_covered {asset : CryptoAsset} {cycle : OwnedCycle} {available unowned : ℚ}
    {clientId : String} {r : Reservation}
    (made : exitReservation asset cycle available unowned clientId = some r) :
    r.intent.cycleId = cycle.cycleId ∧ r.intent.quantity ≤ ledgerAmount cycle Ledger.ownedQuantity := by
  unfold exitReservation at made
  split at made
  next =>
    cases made
    exact ⟨rfl, (Rounding.quantize_floor_le asset.incrementPositive _).trans (min_le_left _ _)⟩
  next => cases made

theorem newCycle_sound (cycleId symbol : String) (now : Instant) :
    CycleSound cycleId (newCycle cycleId symbol now) where
  named := rfl
  charged := ⟨le_refl _, le_refl _⟩
  closed _ := le_refl _

/-- A cycle that asks for its exit is as sound as before. -/
theorem CycleSound.request {cycleId : String} {cycle : OwnedCycle} (sound : CycleSound cycleId cycle)
    (now : Instant) : CycleSound cycleId { cycle with exitRequested := true, updatedAt := now } :=
  ⟨sound.named, ⟨sound.charged.fee, sound.charged.disposal⟩, sound.closed⟩

theorem Engine.Sound.recycle (sound : e.Sound) {cycles : Dict String OwnedCycle}
    (kept : ∀ cycleId cycle, cycles.get? cycleId = some cycle → CycleSound cycleId cycle) :
    { e with cycles := cycles, job := .idle }.Sound where
  rows := sound.idle.rows
  handed := sound.handed
  lawful := sound.lawful
  cycles := kept
  balanced := sound.balanced
  ready := trivial

/-- A refresh between a thread's steps, or while it has not yet claimed its entry. -/
theorem Engine.Sound.recycled (sound : e.Sound)
    (free : e.job = .idle ∨ ∃ clientId, e.job = .task (.claiming clientId)) {next : Engine}
    {r : Reading} {extra : List String} {now : Instant} {found : Found}
    (done : e.refreshed r extra now found = some next) : next.Sound := by
  obtain ⟨cycles, rfl, kept⟩ := sound.refreshed done
  refine ⟨sound.rows, sound.handed, sound.lawful, fun cycleId cycle present =>
    (kept cycleId cycle present).1, sound.balanced, ?_⟩
  change Engine.Ready _ e.job
  rcases free with idle | ⟨clientId, claiming⟩
  · rw [idle]
    trivial
  · rw [claiming]
    trivial

theorem Engine.Sound.start (sound : e.Sound) (job : Job) (free : job.bound = none)
    (ready : { e with job := job }.Ready job) : { e with job := job }.Sound :=
  sound.next job (.inl free) ready

theorem Engine.step_sound (sound : e.Sound) (move : Move) : (e.step move).Sound := by
  cases move with
  | crash => exact sound.idle
  | lease row =>
    refine sound.advance { e.store with lease := row } rfl e.job (.inr rfl) ?_
    have ready := sound.ready
    cases job : e.job with
    | idle => trivial
    | exiting => rw [job] at ready; exact ready
    | sizing =>
      rw [job] at ready
      exact fun cycle present => let known := ready cycle present; ⟨known.resolved, known.within⟩
    | task t =>
      rw [job] at ready
      cases t with
      | reserving r =>
        exact fun sell => let known := ready sell; ⟨known.resolved, known.within⟩
      | fencing | submitting | unsent | rejecting => exact ⟨ready.unseen, ready.started⟩
      | failed | lookingUp | inspecting | marking =>
        exact fun definitive => let known := ready definitive; ⟨known.unseen, known.started⟩
      | _ => exact ready
  | report order => exact sound.report order
  | openCycle cycleId symbol now =>
    rw [Engine.step]
    cases job : e.job with
    | idle =>
      refine sound.recycle fun key cycle present => ?_
      rw [Dict.get?_setDefault] at present
      split at present
      next same =>
        subst same
        cases stored : e.cycles.get? cycleId with
        | none =>
          rw [stored] at present
          cases present
          exact newCycle_sound cycleId symbol now
        | some old =>
          rw [stored] at present
          cases present
          exact sound.cycles cycleId old stored
      next => exact sound.cycles key cycle present
    | exiting | sizing | task => exact sound
  | requestExit cycleId now =>
    rw [Engine.step]
    cases job : e.job with
    | idle =>
      refine sound.recycle fun key cycle present => ?_
      rw [Dict.get?_modify] at present
      split at present
      next same =>
        obtain ⟨old, stored, rfl⟩ := Option.map_eq_some_iff.mp present
        exact (sound.cycles key old stored).request now
      next => exact sound.cycles key cycle present
    | exiting | sizing | task => exact sound
  | enter r =>
    rw [Engine.step]
    cases job : e.job with
    | idle =>
      dsimp only
      split
      next buy =>
        refine sound.start (.task (.reserving r)) rfl fun sell => ?_
        rw [buy] at sell
        cases sell
      next => exact sound
    | exiting | sizing | task => exact sound
  | reconcile clientId pass =>
    rw [Engine.step]
    cases job : e.job with
    | idle => exact sound.start (.task (.reconciling clientId pass)) rfl trivial
    | exiting | sizing | task => exact sound
  | cancel clientId pass =>
    rw [Engine.step]
    cases job : e.job with
    | idle => exact sound.start (.task (.cancelling clientId pass)) rfl trivial
    | exiting | sizing | task => exact sound
  | deliver d =>
    rw [Engine.step]
    cases job : e.job with
    | idle => exact sound.deliver d (.inl job)
    | exiting cycleId => exact sound.deliver d (.inr (.inl ⟨cycleId, job⟩))
    | sizing => exact sound
    | task t =>
      cases t with
      | claiming clientId => exact sound.deliver d (.inr (.inr ⟨clientId, job⟩))
      | _ => exact sound
  | refresh r extra now found =>
    have apart : (e.job = .idle ∨ ∃ clientId, e.job = .task (.claiming clientId)) →
        ((e.refreshed r extra now found).getD e).Sound := by
      intro free
      cases done : e.refreshed r extra now found with
      | none => exact sound
      | some next => exact sound.recycled free done
    rw [Engine.step]
    cases job : e.job with
    | idle => exact apart (.inl job)
    | exiting cycleId =>
      dsimp only
      cases done : e.refreshed r extra now found with
      | none => exact sound.idle
      | some next =>
        obtain ⟨cycles, rfl, kept⟩ := sound.refreshed done
        have resolved := sound.ready
        rw [job] at resolved
        have refreshed := sound.recycle fun cycleId cycle present => (kept cycleId cycle present).1
        exact refreshed.start (.sizing cycleId) rfl fun cycle present =>
          ⟨resolved, (kept cycleId cycle present).2⟩
    | sizing => exact sound
    | task t =>
      cases t with
      | claiming clientId => exact apart (.inr ⟨clientId, job⟩)
      | _ => exact sound
  | exit listed =>
    rw [Engine.step]
    cases job : e.job with
    | idle =>
      dsimp only
      split
      next exits =>
        simp only [Engine.exits, Bool.and_eq_true, List.all_eq_true] at exits
        exact sound.start (.exiting listed.cycleId) rfl exits.2
      next => exact sound
    | exiting | sizing | task => exact sound
  | size asset available unowned clientId =>
    rw [Engine.step]
    cases job : e.job with
    | sizing cycleId =>
      dsimp only
      cases made : (e.cycles.get? cycleId).bind (exitReservation asset · available unowned clientId) with
      | none => exact sound.idle
      | some r =>
        obtain ⟨cycle, stored, made⟩ := Option.bind_eq_some_iff.mp made
        obtain ⟨own, within⟩ := exitReservation_covered made
        have ready := sound.ready
        rw [job] at ready
        refine sound.start (.task (.reserving r)) rfl fun _ => ?_
        rw [own, (sound.cycles cycleId cycle stored).named]
        exact ⟨(ready cycle stored).resolved, within.trans (ready cycle stored).within⟩
    | idle | exiting | task => exact sound
  | act ownerId outside taken =>
    rw [Engine.step]
    cases job : e.job with
    | task t =>
      dsimp only
      unfold Engine.act
      split
      next answers => exact sound.act job ownerId outside taken answers
      next => exact sound
    | idle | exiting | sizing => exact sound

end Step

theorem initial_sound (lease : Option Lease) : (Engine.initial lease).Sound where
  rows _ _ stored := nomatch stored
  handed _ _ := rfl
  lawful _ := .nil
  cycles _ _ stored := nomatch stored
  balanced cycleId := by simp [Engine.initial, Store.initial]
  ready := trivial

theorem run_sound {e : Engine} (sound : e.Sound) (moves : List Move) : (e.run moves).Sound := by
  induction moves generalizing e with
  | nil => exact sound
  | cons move rest ih => exact ih (Engine.step_sound sound move)

/-- In every reachable state, whatever was called, heard, traded or lost before, what a
cycle's sells have filled and its unresolved sells may still fill is at most what its buys
have filled. -/
theorem run_never_oversells (lease : Option Lease) (moves : List Move) (cycleId : String) :
    let rows := cycleOrders ((Engine.initial lease).run moves).store cycleId
    filledOn .sell rows +
      ((rows.filter fun row => row.intent.side = .sell && !row.status.final).map fun row =>
        row.intent.quantity - row.acknowledged).sum ≤ filledOn .buy rows := by
  dsimp only
  rw [committed_total, filledOn_buy]
  exact (run_sound (initial_sound lease) moves).balanced cycleId

theorem wholeCoin_pos : (0 : ℚ) < 1 := one_pos

def wholeCoins : CryptoAsset := ⟨1, 1, wholeCoin_pos, wholeCoin_pos⟩

/-- An entry of two coins that fills after its acknowledgement, and the exit it lets reserve. -/
def roundTrip : List Move :=
  [ .openCycle "cycle" "BTC/USD" 0, .requestExit "cycle" 0, .enter ⟨boughtIntent, none, boughtIntent_positive⟩,
    .act "worker" ⟨1, .nothing⟩ false, .act "worker" ⟨1, .nothing⟩ false,
    .act "worker" ⟨1, .nothing⟩ false, .act "worker" ⟨1, .fence passingFence 1⟩ false,
    .act "worker" ⟨1, .snapshot partialFill⟩ false, .act "worker" ⟨1, .nothing⟩ false,
    .report completeFill, .deliver (.rest completeFill 5), .refresh boughtReading [] 20 boughtFound,
    .exit { newCycle "cycle" "BTC/USD" 0 with exitRequested := true, columns := ⟨2, 2, 0, 0⟩ },
    .refresh boughtReading [] 20 { boughtFound with versions := fun _ => some 20 },
    .size wholeCoins 2 0 "v30-2", .act "worker" ⟨1, .nothing⟩ false ]

example : (cycleOrders ((Engine.initial (some ⟨"worker", 0⟩)).run roundTrip).store "cycle").map
    (fun row => (row.intent.side, row.intent.quantity, row.acknowledged)) =
    [(.buy, 2, 2), (.sell, 2, 0)] := by decide +kernel

end TradeAgent.Scalp
