import TradeAgent.EntryBudget

/-! A session's counter is the sum of what it counts, after any transactions in any order. -/
namespace TradeAgent.Event

/-- An entry booked in a session and not released. -/
def EventOrder.reserves (row : EventOrder) (session : Session) : Prop :=
  row.side = .buy ∧ row.link.sessionId = some session ∧ row.link.reservationReleasedAt = none

instance (row : EventOrder) (session : Session) : Decidable (row.reserves session) :=
  inferInstanceAs (Decidable (_ ∧ _ ∧ _))

def localReservations (orders : Dict String EventOrder) (session : Session) : ℕ :=
  orders.values.countP (·.reserves session)

def Books.scheduledReservations (books : Books) (session : Session) : ℕ :=
  if (books.budget session).scheduledEntryReserved then 1 else 0

def Books.externalBuys (books : Books) (session : Session) : ℕ :=
  (books.origin session).externalBuyClientIds.card

structure Books.Exact (books : Books) : Prop where
  counted : ∀ session, (books.budget session).totalEntriesReserved =
    localReservations books.store.orders session + books.scheduledReservations session +
      books.externalBuys session
  requested : ∀ session, (books.budget session).scheduledEntryReserved = true →
    (books.origin session).scheduledRequestId ≠ none
  known : ∀ clientId ∈ books.released, books.store.holdsRelease clientId = true
  once : books.released.Nodup

section rows

variable {orders : Dict String EventOrder} {session : Session}

theorem reservations_fresh {row : EventOrder}
    (fresh : orders.get? row.clientOrderId = none) :
    localReservations (orders.set row.clientOrderId row) session =
      localReservations orders session + if row.reserves session then 1 else 0 := by
  unfold localReservations
  rw [Dict.values_set_absent fresh, List.countP_append, List.countP_singleton]
  simp

theorem reservations_rewritten {clientId : String} {row row' : EventOrder}
    (found : orders.get? clientId = some row) :
    (localReservations (orders.set clientId row') session : ℤ) =
      localReservations orders session - (if row.reserves session then 1 else 0) +
        if row'.reserves session then 1 else 0 := by
  unfold localReservations
  rw [Dict.countP_set_of_get found]
  simp

/-- What a rewrite must leave of a row for the books to be left alone. -/
structure EventOrder.SameBooking (a b : EventOrder) : Prop where
  side : b.side = a.side
  session : b.link.sessionId = a.link.sessionId
  released : b.link.reservationReleasedAt = a.link.reservationReleasedAt

theorem EventOrder.SameBooking.reserves {a b : EventOrder} (same : a.SameBooking b) :
    b.reserves session ↔ a.reserves session := by
  unfold EventOrder.reserves
  rw [same.side, same.session, same.released]

end rows

/-- The rows after a transaction aside: no reservation is made, undone or moved. -/
inductive Undisturbed (old new : Dict String EventOrder) : Prop
  | kept (orders : new = old)
  | born (row : EventOrder) (fresh : old.get? row.clientOrderId = none) (sells : row.side = .sell)
      (orders : new = old.set row.clientOrderId row)
  | moved (clientId : String) (row row' : EventOrder) (found : old.get? clientId = some row)
      (same : row.SameBooking row') (orders : new = old.set clientId row')

section aside

variable {s t : Store} {effective : Bool}

theorem rewrite_undisturbed {clientId : String} {change : EventOrder → EventOrder}
    (same : ∀ row, s.orders.get? clientId = some row → row.SameBooking (change row)) :
    Undisturbed s.orders (s.rewrite clientId change).orders := by
  cases found : s.orders.get? clientId with
  | none => exact .kept (Dict.modify_of_absent found change)
  | some row =>
    exact .moved clientId row (change row) found (same row found) (Dict.modify_of_get found change)

theorem rewriteFrom_undisturbed {clientId : String} {status : LifecycleState}
    {change : EventOrder → EventOrder} (same : ∀ row : EventOrder, row.SameBooking (change row)) :
    Undisturbed s.orders (s.rewriteFrom clientId status change).2.orders ∧
      (s.rewriteFrom clientId status change).2.budgets = s.budgets := by
  unfold Store.rewriteFrom
  cases found : s.orders.get? clientId with
  | none => exact ⟨.kept rfl, rfl⟩
  | some row =>
    dsimp only
    split
    · exact ⟨rewrite_undisturbed fun row _ => same row, rfl⟩
    · exact ⟨.kept rfl, rfl⟩

theorem aside_undisturbed {transaction : Transaction} (aside : transaction.Aside s)
    (done : s.apply transaction = .ok (effective, t)) :
    Undisturbed s.orders t.orders ∧ t.budgets = s.budgets := by
  cases transaction with
  | enter intent => exact aside.elim
  | expireUnsent cohortId clientId at_ claimed => exact aside.elim
  | reserveExit intent =>
    obtain ⟨-, rfl, -⟩ | ⟨-, fresh, rfl⟩ := reserveExit_outcome done
    · exact ⟨.kept rfl, rfl⟩
    · have sells : intent.request.side = .sell := aside
      exact ⟨.born (reserved _ _ _ _) fresh sells rfl, rfl⟩
  | observe policy clientId response =>
    obtain ⟨row, found, ⟨-, rfl⟩ | ⟨row', observed, rfl⟩⟩ := store_observe_outcome done
    · exact ⟨.kept rfl, rfl⟩
    · obtain ⟨-, -, -, plan, -, rfl⟩ := observe_outcome observed
      exact ⟨.moved clientId row (row.take response plan) found ⟨rfl, rfl, rfl⟩
        (Dict.modify_of_get found _), rfl⟩
  | claim clientId =>
    obtain ⟨-, rfl⟩ := Prod.mk.inj (Except.ok.inj done)
    exact rewriteFrom_undisturbed fun _ => ⟨rfl, rfl, rfl⟩
  | expireExit clientId =>
    obtain ⟨-, rfl⟩ := Prod.mk.inj (Except.ok.inj done)
    exact rewriteFrom_undisturbed fun _ => ⟨rfl, rfl, rfl⟩
  | updateLink clientId link =>
    obtain ⟨-, rfl⟩ := Prod.mk.inj (Except.ok.inj done)
    refine ⟨rewrite_undisturbed fun row found => ?_, rfl⟩
    obtain ⟨session, released⟩ := aside row found
    exact ⟨rfl, session, released⟩
  | attempted clientId at_ =>
    obtain ⟨-, rfl⟩ := Prod.mk.inj (Except.ok.inj done)
    exact ⟨rewrite_undisturbed fun _ _ => ⟨rfl, rfl, rfl⟩, rfl⟩
  | reject clientId =>
    obtain ⟨-, rfl⟩ := Prod.mk.inj (Except.ok.inj done)
    exact ⟨rewrite_undisturbed fun _ _ => ⟨rfl, rfl, rfl⟩, rfl⟩
  | cancelPending clientId =>
    obtain ⟨-, rfl⟩ := Prod.mk.inj (Except.ok.inj done)
    exact ⟨rewrite_undisturbed fun _ _ => ⟨rfl, rfl, rfl⟩, rfl⟩
  | terminate cohortId reason =>
    obtain ⟨-, rfl⟩ := Prod.mk.inj (Except.ok.inj done)
    unfold Store.terminate
    dsimp only
    split
    · exact ⟨.kept rfl, rfl⟩
    · exact ⟨.kept rfl, rfl⟩
  | register | hand | recordAccount | handOff | pause | control =>
    obtain ⟨-, rfl⟩ := Prod.mk.inj (Except.ok.inj done)
    exact ⟨.kept rfl, rfl⟩

end aside

/-! ## The books of any other session, and of the rows -/

section books

variable {books next : Books} {session other : Session}

@[simp] theorem budget_setBudget (budget : SessionBudget) (origin : BudgetOrigin) :
    (books.setBudget session budget origin).budget other =
      if session = other then budget else books.budget other :=
  Dict.getD_set _ _ _ _ _

@[simp] theorem origin_setBudget (budget : SessionBudget) (origin : BudgetOrigin) :
    (books.setBudget session budget origin).origin other =
      if session = other then origin else books.origin other :=
  Dict.getD_set _ _ _ _ _

/-- A session's budget changes by as much as what it counts. -/
theorem Books.Exact.setBudget (exact : books.Exact) {budget : SessionBudget} {origin : BudgetOrigin}
    (counted : budget.totalEntriesReserved = localReservations books.store.orders session +
      (if budget.scheduledEntryReserved then 1 else 0 : ℕ) + origin.externalBuyClientIds.card)
    (requested : budget.scheduledEntryReserved = true → origin.scheduledRequestId ≠ none) :
    (books.setBudget session budget origin).Exact := by
  refine ⟨fun other => ?_, fun other => ?_, exact.known, exact.once⟩
  · unfold Books.scheduledReservations Books.externalBuys
    rw [budget_setBudget, origin_setBudget]
    by_cases here : session = other
    · subst here
      rw [if_pos rfl, if_pos rfl]
      exact counted
    · rw [if_neg here, if_neg here]
      exact exact.counted other
  · rw [budget_setBudget, origin_setBudget]
    by_cases here : session = other
    · rw [if_pos here, if_pos here]
      exact requested
    · rw [if_neg here, if_neg here]
      exact exact.requested other

theorem reserveScheduled_exact {requestId : String} (exact : books.Exact)
    (done : books.reserveScheduled session requestId = .ok next) : next.Exact := by
  unfold Books.reserveScheduled at done
  dsimp only at done
  split at done
  next => cases done
  next free =>
    obtain rfl := Except.ok.inj done
    have unrequested : (books.origin session).scheduledRequestId = none := by
      simp only [not_or, not_not] at free
      exact free.2.2
    have idle : (books.budget session).scheduledEntryReserved = false := by
      by_contra reserved
      exact exact.requested session (by simpa using reserved) unrequested
    have counted := exact.counted session
    unfold Books.scheduledReservations Books.externalBuys at counted
    refine exact.setBudget ?_ (by simp)
    simp only [idle, Bool.false_eq_true, if_false, if_true] at counted ⊢
    omega

theorem countBuys_exact {digest : String} {localIds : List String} {buys : ℤ × List String}
    (exact : books.Exact) (done : books.countBuys digest localIds buys = .ok next) :
    next.Exact := by
  unfold Books.countBuys at done
  dsimp only at done
  split at done
  next => cases done
  next grown =>
    obtain rfl := Except.ok.inj done
    have counted := exact.counted ⟨digest, buys.1⟩
    unfold Books.scheduledReservations Books.externalBuys at counted
    refine exact.setBudget ?_ (exact.requested _)
    have parts := Finset.card_sdiff_add_card_eq_card (not_not.mp grown)
    dsimp only
    rw [counted, ← parts]
    push_cast
    ring

theorem countAll_exact {digest : String} {localIds : List String} {buys : List (ℤ × List String)}
    (exact : books.Exact) (done : buys.foldlM (Books.countBuys digest localIds) books = .ok next) :
    next.Exact := by
  induction buys generalizing books with
  | nil =>
    obtain rfl := Except.ok.inj done
    exact exact
  | cons day rest ih =>
    rw [List.foldlM_cons] at done
    obtain ⟨mid, first, done⟩ := bind_ok_iff.mp done
    exact ih (countBuys_exact exact first) done

theorem saveBaseline_exact {report : Baseline} {now : Instant} (exact : books.Exact)
    (done : books.saveBaseline report now = .ok next) : next.Exact := by
  unfold Books.saveBaseline at done
  obtain ⟨_, -, done⟩ := bind_ok_iff.mp done
  obtain ⟨counted, all, done⟩ := bind_ok_iff.mp done
  obtain rfl := Except.ok.inj done
  have exact := countAll_exact exact all
  exact ⟨exact.counted, exact.requested, exact.known, exact.once⟩

/-! ## Submission and release -/

theorem reserve_total (budget : SessionBudget) (intent : EntryIntent) (owns : Bool) :
    (budget.reserve intent owns).totalEntriesReserved =
      budget.totalEntriesReserved + if owns then 0 else 1 := by
  unfold SessionBudget.reserve
  cases intent.kind
  all_goals cases owns <;> simp

theorem reserve_scheduled (budget : SessionBudget) (intent : EntryIntent) (owns : Bool) :
    (budget.reserve intent owns).scheduledEntryReserved =
      (budget.scheduledEntryReserved && !owns) := by
  unfold SessionBudget.reserve
  cases intent.kind
  all_goals cases owns <;> simp

theorem submitted_reserves (intent : EntryIntent) (buys : intent.request.side = .buy)
    (plan : Option Protection) :
    (reserved intent.settings.cohortId intent.orderId intent.request
        (intent.link plan)).reserves session ↔
      intent.settings.purpose = .iexPractice ∧ intent.session = session := by
  unfold EventOrder.reserves reserved EntryIntent.link
  by_cases practice : intent.settings.purpose = .iexPractice
  · simp [buys, practice]
  · simp [practice]

theorem holdsRelease_set {s : Store} {row : EventOrder} {clientId : String}
    (fresh : s.orders.get? row.clientOrderId = none) (held : s.holdsRelease clientId = true) :
    (s.setOrder row).holdsRelease clientId = true := by
  unfold Store.holdsRelease Store.setOrder at *
  rw [Dict.get?_set]
  by_cases here : row.clientOrderId = clientId
  · rw [here] at fresh
    simp [fresh] at held
  · rwa [if_neg here]

theorem owns_scheduled {s : Store} {intent : EntryIntent}
    (owns : s.ownsScheduledReservation intent = true) :
    (s.budgets.getD intent.session {}).scheduledEntryReserved = true := by
  unfold Store.ownsScheduledReservation at owns
  simp only [Bool.and_eq_true] at owns
  exact owns.1.1

theorem getD_booked (budgets : Dict Session SessionBudget) (booked : Prop) [Decidable booked]
    (budget : SessionBudget) :
    (if booked then budgets.set session budget else budgets).getD other {} =
      if booked ∧ session = other then budget else budgets.getD other {} := by
  by_cases practice : booked
  · rw [if_pos practice, Dict.getD_set]
    by_cases here : session = other
    · rw [if_pos here, if_pos ⟨practice, here⟩]
    · rw [if_neg here, if_neg fun both => here both.2]
  · rw [if_neg practice, if_neg fun both => practice both.1]

/-- A submission either books one entry of its session, whatever it owned, or changes nothing. -/
theorem submitEntry_spec {submission : Submission} {booked : Bool}
    (done : books.submitEntry submission = .ok (booked, next)) :
    (booked = false ∧ next = books) ∨
      (booked = true ∧ ¬books.store.refuses (books.owning submission) ∧ ∃ row,
        books.store.orders.get? row.clientOrderId = none ∧
        (∀ session, row.reserves session ↔
          submission.intent.settings.purpose = .iexPractice ∧ submission.intent.session = session) ∧
        next.store.orders = books.store.orders.set row.clientOrderId row ∧
        (∀ session, next.budget session =
          if submission.intent.settings.purpose = .iexPractice ∧
              submission.intent.session = session then
            (books.budget session).reserve (books.owning submission)
              (books.store.ownsScheduledReservation (books.owning submission))
          else books.budget session) ∧
        next.origins = books.origins ∧ next.released = books.released) := by
  unfold Books.submitEntry at done
  obtain ⟨⟨_, store⟩, entered, done⟩ := bind_ok_iff.mp done
  obtain ⟨rfl, rfl⟩ := Prod.mk.inj (Except.ok.inj done)
  obtain ⟨rfl, rfl⟩ | ⟨rfl, accepted, plan, fresh, rfl⟩ := enter_spec entered
  · exact .inl ⟨rfl, rfl⟩
  · refine .inr ⟨rfl, accepted, _, fresh,
      fun session => submitted_reserves (books.owning submission) submission.buys plan,
      rfl, fun session => ?_, rfl, rfl⟩
    refine (getD_booked _ _ _).trans ?_
    split
    next here =>
      obtain ⟨practice, rfl⟩ := here
      exact (if_pos (c := submission.intent.settings.purpose = .iexPractice ∧ _) ⟨practice, rfl⟩).symm
    next elsewhere =>
      exact (if_neg (c := submission.intent.settings.purpose = .iexPractice ∧ _) elsewhere).symm

theorem submitEntry_exact {submission : Submission} {booked : Bool} (exact : books.Exact)
    (done : books.submitEntry submission = .ok (booked, next)) : next.Exact := by
  obtain ⟨-, rfl⟩ | ⟨-, -, row, fresh, reserves, orders, budgets, origins, released⟩ :=
    submitEntry_spec done
  · exact exact
  · have origin : ∀ session, next.origin session = books.origin session := fun session => by
      unfold Books.origin
      rw [origins]
    refine ⟨fun session => ?_, fun session scheduled => ?_, fun clientId member => ?_,
      released ▸ exact.once⟩
    · have counted := exact.counted session
      unfold Books.scheduledReservations Books.externalBuys at *
      rw [orders, reservations_fresh fresh, origin, budgets]
      by_cases here : submission.intent.settings.purpose = .iexPractice ∧
          submission.intent.session = session
      · rw [if_pos here, if_pos ((reserves session).mpr here), reserve_total, reserve_scheduled,
          counted]
        cases owns : books.store.ownsScheduledReservation (books.owning submission) with
        | false =>
          simp only [Bool.not_false, Bool.and_true, Bool.false_eq_true, if_false]
          omega
        | true =>
          have flag : (books.budget session).scheduledEntryReserved = true := by
            rw [← here.2]
            exact @owns_scheduled books.store (books.owning submission) owns
          simp only [flag, Bool.not_true, Bool.and_false, Bool.false_eq_true, if_false, if_true]
          omega
      · rw [if_neg here, if_neg (mt (reserves session).mp here), counted]
        rfl
    · rw [origin]
      rw [budgets] at scheduled
      refine exact.requested session ?_
      split at scheduled
      · rw [reserve_scheduled, Bool.and_eq_true] at scheduled
        exact scheduled.1
      · exact scheduled
    · have held := exact.known clientId (released ▸ member)
      have set := holdsRelease_set fresh held
      unfold Store.holdsRelease Store.setOrder at set
      unfold Store.holdsRelease
      rwa [orders]

theorem release_counters {budget budget' : SessionBudget} {kind : EntryKind}
    (done : budget.release kind = .ok budget') :
    budget'.totalEntriesReserved = budget.totalEntriesReserved - 1 ∧
      budget'.scheduledEntryReserved = budget.scheduledEntryReserved := by
  unfold SessionBudget.release at done
  split at done
  next => cases done
  next => cases done; exact ⟨rfl, rfl⟩

theorem holdsRelease_rewrite (s : Store) (clientId other : String)
    (change : EventOrder → EventOrder) :
    (s.rewrite clientId change).holdsRelease other =
      if clientId = other then
        (s.orders.get? other).any fun row => (change row).link.reservationReleasedAt.isSome
      else s.holdsRelease other := by
  unfold Store.holdsRelease Store.rewrite
  rw [Dict.get?_modify]
  split
  · cases s.orders.get? other <;> rfl
  · rfl

/-- A local expiry that releases appends the order to what was released, and no other does. -/
theorem expireUnsent_books {cohortId clientId : String} {at_ : Instant} {claimed expired : Bool}
    (done : books.expireUnsent cohortId clientId at_ claimed = .ok (expired, next)) :
    next = books ∨ ∃ row, books.store.orders.get? clientId = some row ∧
      row.link.reservationReleasedAt = none ∧
      ((row.link.sessionId = none ∧
          next = { books with store := books.store.rewrite clientId (·.expire at_ false) }) ∨
        ∃ session kind budget, row.link.sessionId = some session ∧
          (books.budget session).release kind = .ok budget ∧
          next = { books with
            store := { books.store.rewrite clientId (·.expire at_ true) with
              budgets := books.store.budgets.set session budget }
            released := books.released ++ [clientId] }) := by
  unfold Books.expireUnsent at done
  obtain ⟨⟨_, store⟩, closed, done⟩ := bind_ok_iff.mp done
  obtain ⟨rfl, rfl⟩ := Prod.mk.inj (Except.ok.inj done)
  obtain ⟨row, found, ⟨rfl, -, rfl⟩ | ⟨rfl, unsent, closed⟩⟩ := expireUnsent_spec closed
  · left
    simp
  · refine .inr ⟨row, found, unsent.2.2.2.2, ?_⟩
    obtain ⟨sessionless, rfl⟩ | ⟨session, kind, budget, booked, released, rfl⟩ := closed
    · have silent : (books.store.rewrite clientId (·.expire at_ false)).holdsRelease clientId =
          false := by
        rw [holdsRelease_rewrite, if_pos rfl, found]
        rfl
      refine .inl ⟨sessionless, ?_⟩
      simp [silent]
    · have holds : (books.store.rewrite clientId (·.expire at_ true)).holdsRelease clientId =
          true := by
        rw [holdsRelease_rewrite, if_pos rfl, found]
        rfl
      refine .inr ⟨session, kind, budget, booked, released, ?_⟩
      have shown : Store.holdsRelease { books.store.rewrite clientId (·.expire at_ true) with
          budgets := books.store.budgets.set session budget } clientId = true := holds
      simp [shown]

theorem expire_reserves (row : EventOrder) (at_ : Instant) (budgeted : Bool) :
    (row.expire at_ budgeted).reserves session ↔
      row.side = .buy ∧ row.link.sessionId = some session ∧ budgeted = false := by
  unfold EventOrder.reserves EventOrder.expire
  cases budgeted <;> simp

theorem reservations_expired {clientId : String} {row : EventOrder} (at_ : Instant)
    (budgeted : Bool) (found : books.store.orders.get? clientId = some row) :
    (localReservations (books.store.rewrite clientId (·.expire at_ budgeted)).orders session : ℤ) =
      localReservations books.store.orders session - (if row.reserves session then 1 else 0) +
        if (row.expire at_ budgeted).reserves session then 1 else 0 := by
  unfold Store.rewrite
  rw [Dict.modify_of_get found, reservations_rewritten found]

/-- An order whose link says nothing of a release was not released before. -/
theorem Books.Exact.unreleased (exact : books.Exact) {clientId : String} {row : EventOrder}
    (found : books.store.orders.get? clientId = some row)
    (held : row.link.reservationReleasedAt = none) : clientId ∉ books.released := fun member => by
  have holds := exact.known clientId member
  unfold Store.holdsRelease at holds
  simp [found, held] at holds

theorem expireUnsent_exact {cohortId clientId : String} {at_ : Instant} {claimed expired : Bool}
    (exact : books.Exact)
    (buys : ∀ row, books.store.orders.get? clientId = some row → row.side = .buy)
    (done : books.expireUnsent cohortId clientId at_ claimed = .ok (expired, next)) :
    next.Exact := by
  obtain rfl | ⟨row, found, held, closed⟩ := expireUnsent_books done
  · exact exact
  have unreleased := exact.unreleased found held
  have kept : ∀ budgeted, ∀ other ∈ books.released,
      (books.store.rewrite clientId (·.expire at_ budgeted)).holdsRelease other = true := by
    intro budgeted other member
    have apart : clientId ≠ other := by
      rintro rfl
      exact unreleased member
    rw [holdsRelease_rewrite, if_neg apart]
    exact exact.known other member
  obtain ⟨sessionless, rfl⟩ | ⟨session, kind, budget, booked, released, rfl⟩ := closed
  · refine ⟨fun session => ?_, exact.requested, kept false, exact.once⟩
    have counted := exact.counted session
    have same := @reservations_expired books session _ _ at_ false found
    rw [if_neg fun reserves => by simp [reserves.2.1] at sessionless,
      if_neg fun reserves => by simp [sessionless, expire_reserves] at reserves] at same
    unfold Books.scheduledReservations Books.externalBuys at *
    dsimp only
    rw [same]
    exact counted.trans (by rw [Int.sub_zero, Int.add_zero]; rfl)
  · obtain ⟨lowered, scheduled⟩ := release_counters released
    have lookup : ∀ other, (books.store.budgets.set session budget).getD other {} =
        if session = other then budget else books.budget other :=
      fun other => Dict.getD_set _ _ _ _ _
    refine ⟨fun other => ?_, fun other flag => ?_, fun other member => ?_, ?_⟩
    · have counted := exact.counted other
      have fewer := @reservations_expired books other _ _ at_ true found
      have gone : ¬(row.expire at_ true).reserves other := fun reserves =>
        nomatch ((expire_reserves row at_ true).mp reserves).2.2
      rw [if_neg gone] at fewer
      unfold Books.scheduledReservations Books.externalBuys Books.budget at *
      dsimp only
      rw [lookup, fewer]
      by_cases here : session = other
      · subst here
        rw [if_pos rfl, if_pos ⟨buys row found, booked, held⟩, lowered, scheduled]
        simp only [Books.origin] at counted ⊢
        omega
      · rw [if_neg here, if_neg fun reserves => here (Option.some.inj (booked.symm.trans reserves.2.1))]
        simp only [Books.origin] at counted ⊢
        omega
    · unfold Books.budget at flag
      dsimp only at flag
      rw [lookup] at flag
      split at flag
      next here =>
        subst here
        exact exact.requested session (scheduled ▸ flag)
      next => exact exact.requested other flag
    · rcases List.mem_append.mp member with old | new
      · exact kept true other old
      · obtain rfl := List.mem_singleton.mp new
        refine (holdsRelease_rewrite _ _ _ _).trans ?_
        rw [if_pos rfl, found]
        rfl
    · exact exact.once.append (List.nodup_singleton clientId) (by simpa using unreleased)

theorem Undisturbed.reservations {old new : Dict String EventOrder} (change : Undisturbed old new) :
    localReservations new session = localReservations old session := by
  cases change with
  | kept orders => rw [orders]
  | born row fresh sells orders =>
    have apart : ¬row.reserves session := fun reserves => nomatch sells.symm.trans reserves.1
    rw [orders, reservations_fresh fresh, if_neg apart, Nat.add_zero]
  | moved clientId row row' found same orders =>
    have counts := @reservations_rewritten old session clientId row row' found
    simp only [same.reserves] at counts
    rw [orders]
    omega

theorem Undisturbed.holdsRelease {s t : Store} (change : Undisturbed s.orders t.orders)
    {clientId : String} (held : s.holdsRelease clientId = true) :
    t.holdsRelease clientId = true := by
  unfold Store.holdsRelease at *
  cases change with
  | kept orders => rwa [orders]
  | born row fresh sells orders =>
    rw [orders]
    exact holdsRelease_set fresh held
  | moved other row row' found same orders =>
    rw [orders, Dict.get?_set]
    by_cases here : other = clientId
    · subst here
      rw [found, Option.any_some] at held
      rw [if_pos rfl, Option.any_some, same.released]
      exact held
    · rwa [if_neg here]

theorem aside_exact {transaction : Transaction} {effective : Bool} {store : Store}
    (exact : books.Exact) (aside : transaction.Aside books.store)
    (done : books.store.apply transaction = .ok (effective, store)) :
    Books.Exact { books with store } := by
  obtain ⟨change, budgets⟩ := aside_undisturbed aside done
  have budget : ∀ session, Books.budget { books with store } session = books.budget session := by
    intro session
    unfold Books.budget
    rw [budgets]
  refine ⟨fun session => ?_, fun session flag => ?_, fun clientId member => ?_, exact.once⟩
  · have counted := exact.counted session
    unfold Books.scheduledReservations at *
    rw [budget, change.reservations]
    exact counted
  · rw [budget] at flag
    exact exact.requested session flag
  · exact change.holdsRelease (exact.known clientId member)

theorem step_exact (exact : books.Exact) (step : books.Step next) : next.Exact := by
  cases step with
  | submitted submission done => exact submitEntry_exact exact done
  | expired cohortId clientId at_ claimed buys done => exact expireUnsent_exact exact buys done
  | scheduled session requestId done => exact reserveScheduled_exact exact done
  | imported report now done => exact saveBaseline_exact exact done
  | aside transaction aside done => exact aside_exact exact aside done

theorem empty_exact : Books.empty.Exact :=
  ⟨fun _ => rfl, fun _ flag => (nomatch flag), fun _ member => (nomatch member), List.nodup_nil⟩

theorem run_exact (exact : books.Exact) (reaches : books.Reaches next) : next.Exact := by
  induction reaches with
  | refl => exact exact
  | tail _ step ih => exact step_exact ih step

/-- An entry is accepted below its caps; the scheduled reservation it owns is not held against it. -/
theorem accepted_below {s : Store} {intent : EntryIntent} (accepted : ¬s.refuses intent)
    (practice : intent.settings.purpose = .iexPractice) :
    (s.budgets.getD intent.session {}).totalEntriesReserved -
        (if s.ownsScheduledReservation intent then 1 else 0) <
      (min intent.settings.maxEntriesPerSession intent.settings.maximumRoundTripsPerDay : ℤ) := by
  unfold Store.refuses at accepted
  simp only [not_or] at accepted
  obtain ⟨-, -, -, -, -, below⟩ := accepted
  unfold Store.entriesToday at below
  simpa [practice] using below

/-- What a submission books stays within the caps its settings give the session. -/
theorem submitEntry_capped {submission : Submission}
    (done : books.submitEntry submission = .ok (true, next))
    (practice : submission.intent.settings.purpose = .iexPractice) :
    (next.budget submission.intent.session).totalEntriesReserved ≤
      (min submission.intent.settings.maxEntriesPerSession
        submission.intent.settings.maximumRoundTripsPerDay : ℤ) := by
  obtain ⟨refused, -⟩ | ⟨-, accepted, row, -, -, -, budgets, -, -⟩ := submitEntry_spec done
  · exact nomatch refused
  · have below := accepted_below accepted practice
    have grown := reserve_total (books.budget submission.intent.session) (books.owning submission)
      (books.store.ownsScheduledReservation (books.owning submission))
    rw [budgets, if_pos ⟨practice, rfl⟩, grown]
    unfold Books.budget
    cases owns : books.store.ownsScheduledReservation (books.owning submission) with
    | true =>
      rw [owns, if_pos rfl] at below
      rw [if_pos rfl, Int.add_zero]
      exact Int.le_of_sub_one_lt below
    | false =>
      rw [owns, if_neg Bool.false_ne_true, Int.sub_zero] at below
      rw [if_neg Bool.false_ne_true]
      exact below

/-- After any transactions in any order, each session's counter is its entries booked and not
released, its scheduled reservation if that is unconsumed, and the BUYs counted from the account's
history; it is never negative, no reservation was released twice, and no submission that books an
entry takes it past the session's cap. -/
theorem books_account (reaches : Books.empty.Reaches books) :
    (∀ session, (books.budget session).totalEntriesReserved =
        localReservations books.store.orders session + books.scheduledReservations session +
          books.externalBuys session ∧
        0 ≤ (books.budget session).totalEntriesReserved) ∧
      books.released.Nodup ∧
      ∀ submission next, books.submitEntry submission = .ok (true, next) →
        submission.intent.settings.purpose = .iexPractice →
        (next.budget submission.intent.session).totalEntriesReserved ≤
          (min submission.intent.settings.maxEntriesPerSession
            submission.intent.settings.maximumRoundTripsPerDay : ℤ) := by
  have exact := run_exact empty_exact reaches
  refine ⟨fun session => ⟨exact.counted session, ?_⟩, exact.once, fun submission next done =>
    submitEntry_capped done⟩
  rw [exact.counted]
  omega

end books

def practiceSettings : ExperimentalSettings where
  cohortId := "practice"
  experimentalPaper := true
  purpose := .iexPractice
  entryPolicy := .newsPaper
  practiceStartDate := some 20000
  maxEntriesPerSession := 2
  maximumRoundTripsPerDay := 3
  dated := by decide
  protectedPractice := fun _ => rfl

def practiceSession : Session := ⟨"account", 20000⟩

def practiceSubmission : Submission where
  intent :=
    { settings := practiceSettings
      configHash := "config"
      kind := .strategy
      claimKey := .cluster "practice" "cluster"
      session := practiceSession
      flat := true
      ownsSchedule := false
      orderId := 1
      request := ⟨"entry", "AAPL", .buy, 1, .limit, 0, by decide +kernel⟩
      limitPrice := 100
      expiresAt := 0
      exitAt := 0
      quoteAt := 0 }
  buys := rfl
  scheduledRequestId := none

/-- An entry that expires before it is claimed is released once, and nothing of it is counted. -/
theorem books_account_released : ∃ books, Books.empty.Reaches books ∧ books.released = ["entry"] ∧
    books.released.Nodup ∧ (books.budget practiceSession).totalEntriesReserved =
      localReservations books.store.orders practiceSession +
        books.scheduledReservations practiceSession + books.externalBuys practiceSession := by
  have reaches : Books.empty.Reaches _ :=
    .tail (.tail (.tail .refl
      (.aside (.register ⟨practiceSettings, "config", "manifest"⟩) trivial rfl))
      (.submitted practiceSubmission rfl))
      (.expired "practice" "entry" 7 false (fun row found => by cases found; rfl) rfl)
  have accounted := books_account reaches
  exact ⟨_, reaches, rfl, accounted.2.1, (accounted.1 practiceSession).1⟩

end TradeAgent.Event
