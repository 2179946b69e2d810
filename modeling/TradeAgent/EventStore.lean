import Mathlib.Logic.Relation
import TradeAgent.EventOrder
import TradeAgent.Library.Procedure

/-! What one transaction of the event engine can do to its order rows, and what holds of every
database the engine can reach. -/
namespace TradeAgent.Event

/-- The part of a row that nothing rewrites. -/
structure EventOrder.Same (a b : EventOrder) : Prop where
  orderId : b.orderId = a.orderId
  clientOrderId : b.clientOrderId = a.clientOrderId
  owningCohort : b.owningCohort = a.owningCohort
  symbol : b.symbol = a.symbol
  side : b.side = a.side
  quantity : b.quantity = a.quantity
  createdAt : b.createdAt = a.createdAt

theorem EventOrder.Same.refl (row : EventOrder) : row.Same row := ⟨rfl, rfl, rfl, rfl, rfl, rfl, rfl⟩

theorem EventOrder.Same.trans {a b c : EventOrder} (one : a.Same b) (two : b.Same c) : a.Same c :=
  ⟨two.orderId.trans one.orderId, two.clientOrderId.trans one.clientOrderId,
    two.owningCohort.trans one.owningCohort, two.symbol.trans one.symbol, two.side.trans one.side,
    two.quantity.trans one.quantity, two.createdAt.trans one.createdAt⟩

/-- Reserved, and never claimed for dispatch. -/
structure EventOrder.Unclaimed (row : EventOrder) : Prop where
  approved : row.status = .approved
  unknown : row.brokerOrderId = none
  unfilled : row.filledQuantity = 0
  unattempted : row.link.submissionAttemptedAt = none
  unreleased : row.link.reservationReleasedAt = none

theorem EventOrder.Unclaimed.unsent {row : EventOrder} (unclaimed : row.Unclaimed) :
    row.unsent false :=
  ⟨unclaimed.approved, unclaimed.unknown, unclaimed.unfilled, unclaimed.unattempted,
    unclaimed.unreleased⟩

/-- A link is rewritten and a submission made only by the dispatch that claimed the order. -/
def Transaction.Allowed (store : Store) : Transaction → Prop
  | .updateLink clientId _ | .attempted clientId _ =>
    ∀ row, store.orders.get? clientId = some row → row.status ≠ .approved
  | .hand request =>
    ∃ row, store.orders.get? request.clientOrderId = some row ∧ row.status ≠ .approved
  | _ => True

/-- The rows after a transaction: a row is born unclaimed, and one that moves has been claimed. -/
inductive Change (old new : Dict String EventOrder) : Prop where
  | kept (orders : new = old)
  | born (row : EventOrder) (fresh : old.get? row.clientOrderId = none)
      (unclaimed : row.Unclaimed) (orders : new = old.set row.clientOrderId row)
  | moved (clientId : String) (row row' : EventOrder) (found : old.get? clientId = some row)
      (same : row.Same row') (left : row'.status ≠ .approved) (orders : new = old.set clientId row')

section changes

variable {s t : Store} {effective : Bool}

theorem lifecycle_ne_approved (order : Scalp.AlpacaPaperOrder) :
    lifecycleStateFromAlpaca order ≠ .approved := by
  unfold lifecycleStateFromAlpaca
  cases order.status <;> decide

theorem reserved_unclaimed (cohortId : String) (orderId : ℕ) (request : OrderRequest) {link : Link}
    (unattempted : link.submissionAttemptedAt = none)
    (unreleased : link.reservationReleasedAt = none) :
    (reserved cohortId orderId request link).Unclaimed :=
  ⟨rfl, rfl, rfl, unattempted, unreleased⟩

theorem rewrite_change {clientId : String} {change : EventOrder → EventOrder}
    (same : ∀ row : EventOrder, row.Same (change row))
    (left : ∀ row, s.orders.get? clientId = some row → (change row).status ≠ .approved) :
    Change s.orders (s.rewrite clientId change).orders := by
  cases found : s.orders.get? clientId with
  | none => exact .kept (Dict.modify_of_absent found change)
  | some row =>
    exact .moved clientId row (change row) found (same row) (left row found)
      (Dict.modify_of_get found change)

theorem rewriteFrom_change {clientId : String} {status : LifecycleState}
    {change : EventOrder → EventOrder} (same : ∀ row : EventOrder, row.Same (change row))
    (left : ∀ row, (change row).status ≠ .approved) :
    Change s.orders (s.rewriteFrom clientId status change).2.orders := by
  unfold Store.rewriteFrom
  cases found : s.orders.get? clientId with
  | none => exact .kept rfl
  | some row =>
    dsimp only
    split
    · exact rewrite_change same fun row _ => left row
    · exact .kept rfl

theorem reserve_outcome {row : EventOrder} (done : s.reserve row = .ok t) :
    s.orders.get? row.clientOrderId = none ∧ t = s.setOrder row := by
  unfold Store.reserve at done
  split at done
  · cases done
  · next absent =>
    obtain rfl := Except.ok.inj done
    exact ⟨by simpa using absent, rfl⟩

theorem enter_spec {intent : EntryIntent} (done : s.enter intent = .ok (effective, t)) :
    (effective = false ∧ t = s) ∨ (effective = true ∧ ¬s.refuses intent ∧ ∃ plan,
      s.orders.get? intent.request.clientOrderId = none ∧
      t = { s.setOrder (reserved intent.settings.cohortId intent.orderId intent.request
              (intent.link plan)) with
            claims := s.claims ++ [intent.claimKey]
            budgets := if intent.settings.purpose = .iexPractice then
                s.budgets.set intent.session ((s.budgets.getD intent.session {}).reserve intent
                  (s.ownsScheduledReservation intent))
              else s.budgets }) := by
  unfold Store.enter at done
  cases registered : s.cohorts.get? intent.settings.cohortId with
  | none => rw [registered] at done; cases done
  | some cohort =>
    simp only [registered] at done
    split at done
    · cases done
    · split at done
      · obtain ⟨rfl, rfl⟩ := Prod.mk.inj (Except.ok.inj done)
        exact .inl ⟨rfl, rfl⟩
      · next accepted =>
        obtain ⟨plan, -, done⟩ := bind_ok_iff.mp done
        obtain ⟨store, kept, done⟩ := bind_ok_iff.mp done
        obtain ⟨rfl, rfl⟩ := Prod.mk.inj (Except.ok.inj done)
        obtain ⟨fresh, rfl⟩ := reserve_outcome kept
        exact .inr ⟨rfl, accepted, plan, fresh, rfl⟩

theorem enter_outcome {intent : EntryIntent} (done : s.enter intent = .ok (effective, t)) :
    t = s ∨ ∃ row budgets claims, s.orders.get? row.clientOrderId = none ∧ row.Unclaimed ∧
      t = { s.setOrder row with budgets, claims } := by
  obtain ⟨-, rfl⟩ | ⟨-, -, plan, fresh, rfl⟩ := enter_spec done
  · exact .inl rfl
  · exact .inr ⟨_, _, _, fresh, reserved_unclaimed _ _ _ rfl rfl, rfl⟩

theorem reserveExit_outcome {intent : ExitIntent}
    (done : s.reserveExit intent = .ok (effective, t)) :
    (effective = false ∧ t = s ∧
      ∃ row ∈ s.orders.values, row.owningCohort = intent.cohortId ∧ ¬row.status.final) ∨
    (effective = true ∧ s.orders.get? intent.request.clientOrderId = none ∧
      t = s.setOrder (reserved intent.cohortId intent.orderId intent.request intent.link)) := by
  unfold Store.reserveExit at done
  cases registered : s.cohorts.get? intent.cohortId with
  | none => rw [registered] at done; cases done
  | some cohort =>
    simp only [registered] at done
    split at done
    · next active =>
      obtain ⟨rfl, rfl⟩ := Prod.mk.inj (Except.ok.inj done)
      exact .inl ⟨rfl, rfl, active⟩
    · obtain ⟨store, kept, done⟩ := bind_ok_iff.mp done
      obtain ⟨rfl, rfl⟩ := Prod.mk.inj (Except.ok.inj done)
      obtain ⟨fresh, rfl⟩ := reserve_outcome kept
      exact .inr ⟨rfl, fresh, rfl⟩

theorem budgetSession_eq {link : Link} {session : Option Session}
    (found : link.budgetSession = .ok session) : link.sessionId = none ↔ session = none := by
  unfold Link.budgetSession at found
  split at found
  next absent =>
    cases found
    exact iff_of_true absent rfl
  next booked =>
    rw [booked]
    split at found
    next => cases found; exact iff_of_false (by simp) (by simp)
    all_goals cases found

theorem expireUnsent_spec {cohortId clientId : String} {at_ : Instant} {claimed : Bool}
    (done : s.expireUnsent cohortId clientId at_ claimed = .ok (effective, t)) :
    ∃ row, s.orders.get? clientId = some row ∧
      ((effective = false ∧ ¬row.unsent claimed ∧ t = s) ∨
        effective = true ∧ row.unsent claimed ∧
          ((row.link.sessionId = none ∧
              t = s.rewrite clientId fun row => row.expire at_ false) ∨
            ∃ session kind budget, row.link.sessionId = some session ∧
              (s.budgets.getD session {}).release kind = .ok budget ∧
              t = { s.rewrite clientId (fun row => row.expire at_ true) with
                budgets := s.budgets.set session budget })) := by
  unfold Store.expireUnsent at done
  cases registered : s.cohorts.get? cohortId with
  | none => rw [registered] at done; cases done
  | some cohort =>
    cases found : s.orders.get? clientId with
    | none => rw [registered] at done; simp only [found] at done; cases done
    | some row =>
      simp only [registered, found] at done
      obtain ⟨session, booked, done⟩ := bind_ok_iff.mp done
      refine ⟨row, rfl, ?_⟩
      split at done
      · next sent =>
        obtain ⟨rfl, rfl⟩ := Prod.mk.inj (Except.ok.inj done)
        exact .inl ⟨rfl, sent, rfl⟩
      · next unsent =>
        cases session with
        | none =>
          obtain ⟨rfl, rfl⟩ := Prod.mk.inj (Except.ok.inj done)
          exact .inr ⟨rfl, not_not.mp unsent, .inl ⟨(budgetSession_eq booked).mpr rfl, rfl⟩⟩
        | some session =>
          dsimp only at done
          split at done
          · cases done
          · next same =>
            split at done
            · next kind _ =>
              obtain ⟨budget, released, done⟩ := bind_ok_iff.mp done
              obtain ⟨rfl, rfl⟩ := Prod.mk.inj (Except.ok.inj done)
              exact .inr ⟨rfl, not_not.mp unsent,
                .inr ⟨session, kind, budget, not_not.mp same, released, rfl⟩⟩
            · cases done

theorem expireUnsent_outcome {cohortId clientId : String} {at_ : Instant} {claimed : Bool}
    (done : s.expireUnsent cohortId clientId at_ claimed = .ok (effective, t)) :
    ∃ row, s.orders.get? clientId = some row ∧
      (¬row.unsent claimed ∧ t = s ∨ row.unsent claimed ∧ ∃ budgeted budgets,
        t = { s.rewrite clientId (fun row => row.expire at_ budgeted) with budgets }) := by
  obtain ⟨row, found, ⟨-, sent, rfl⟩ | ⟨-, unsent, ⟨-, rfl⟩ | ⟨_, _, _, -, -, rfl⟩⟩⟩ :=
    expireUnsent_spec done
  · exact ⟨row, found, .inl ⟨sent, rfl⟩⟩
  · exact ⟨row, found, .inr ⟨unsent, false, s.budgets, rfl⟩⟩
  · exact ⟨row, found, .inr ⟨unsent, true, _, rfl⟩⟩

theorem observe_outcome {row row' : EventOrder} {policy : EntryPolicy}
    {response : Scalp.AlpacaPaperOrder} (done : row.observe policy response = .ok (some row')) :
    row.reconciles response ∧ row.stale response = .ok false ∧
      row.filledQuantity ≤ response.filledQuantity ∧
      ∃ plan, row.protectionAfter policy response = .ok plan ∧ row' = row.take response plan := by
  unfold EventOrder.observe at done
  split at done
  · cases done
  · next reconciles =>
    obtain ⟨stale, judged, done⟩ := bind_ok_iff.mp done
    cases stale with
    | true => cases done
    | false =>
      simp only [Bool.false_eq_true, if_false] at done
      split at done
      · cases done
      · next grown =>
        obtain ⟨plan, planned, done⟩ := bind_ok_iff.mp done
        obtain rfl := Option.some.inj (Except.ok.inj done)
        exact ⟨not_not.mp reconciles, judged, not_lt.mp grown, plan, planned, rfl⟩

theorem store_observe_outcome {policy : EntryPolicy} {clientId : String}
    {response : Scalp.AlpacaPaperOrder}
    (done : s.observe policy clientId response = .ok (effective, t)) :
    ∃ row, s.orders.get? clientId = some row ∧
      (row.observe policy response = .ok none ∧ t = s ∨
        ∃ row', row.observe policy response = .ok (some row') ∧
          t = s.rewrite clientId fun _ => row') := by
  unfold Store.observe at done
  cases found : s.orders.get? clientId with
  | none => rw [found] at done; cases done
  | some row =>
    simp only [found] at done
    obtain ⟨seen, observed, done⟩ := bind_ok_iff.mp done
    refine ⟨row, rfl, ?_⟩
    cases seen with
    | none =>
      obtain ⟨-, rfl⟩ := Prod.mk.inj (Except.ok.inj done)
      exact .inl ⟨observed, rfl⟩
    | some row' =>
      dsimp only at done
      split at done
      · cases done
      · obtain ⟨-, rfl⟩ := Prod.mk.inj (Except.ok.inj done)
        exact .inr ⟨row', observed, rfl⟩

theorem take_same (row : EventOrder) (response : Scalp.AlpacaPaperOrder)
    (plan : Option Protection) : row.Same (row.take response plan) :=
  ⟨rfl, rfl, rfl, rfl, rfl, rfl, rfl⟩

/-- Every transaction changes at most one row. -/
theorem apply_change {transaction : Transaction} (allowed : transaction.Allowed s)
    (done : s.apply transaction = .ok (effective, t)) : Change s.orders t.orders := by
  cases transaction with
  | enter intent =>
    obtain rfl | ⟨row, budgets, claims, fresh, unclaimed, rfl⟩ := enter_outcome done
    · exact .kept rfl
    · exact .born row fresh unclaimed rfl
  | reserveExit intent =>
    obtain ⟨-, rfl, -⟩ | ⟨-, fresh, rfl⟩ := reserveExit_outcome done
    · exact .kept rfl
    · exact .born _ fresh (reserved_unclaimed _ _ _ rfl rfl) rfl
  | expireUnsent cohortId clientId at_ claimed =>
    obtain ⟨row, -, ⟨-, rfl⟩ | ⟨-, budgeted, budgets, rfl⟩⟩ := expireUnsent_outcome done
    · exact .kept rfl
    · exact rewrite_change (fun _ => ⟨rfl, rfl, rfl, rfl, rfl, rfl, rfl⟩)
        fun _ _ => by simp [EventOrder.expire]
  | observe policy clientId response =>
    obtain ⟨row, found, ⟨-, rfl⟩ | ⟨row', observed, rfl⟩⟩ := store_observe_outcome done
    · exact .kept rfl
    · obtain ⟨-, -, -, plan, -, rfl⟩ := observe_outcome observed
      refine .moved clientId row _ found (take_same row response plan)
        (lifecycle_ne_approved response) (Dict.modify_of_get found _)
  | claim clientId =>
    obtain ⟨-, rfl⟩ := Prod.mk.inj (Except.ok.inj done)
    exact rewriteFrom_change (fun _ => ⟨rfl, rfl, rfl, rfl, rfl, rfl, rfl⟩) fun _ => by simp
  | expireExit clientId =>
    obtain ⟨-, rfl⟩ := Prod.mk.inj (Except.ok.inj done)
    exact rewriteFrom_change (fun _ => ⟨rfl, rfl, rfl, rfl, rfl, rfl, rfl⟩) fun _ => by simp
  | updateLink clientId link =>
    obtain ⟨-, rfl⟩ := Prod.mk.inj (Except.ok.inj done)
    exact rewrite_change (fun _ => ⟨rfl, rfl, rfl, rfl, rfl, rfl, rfl⟩) allowed
  | attempted clientId at_ =>
    obtain ⟨-, rfl⟩ := Prod.mk.inj (Except.ok.inj done)
    exact rewrite_change (fun _ => ⟨rfl, rfl, rfl, rfl, rfl, rfl, rfl⟩) allowed
  | reject clientId =>
    obtain ⟨-, rfl⟩ := Prod.mk.inj (Except.ok.inj done)
    exact rewrite_change (fun _ => ⟨rfl, rfl, rfl, rfl, rfl, rfl, rfl⟩) fun _ _ => by simp
  | cancelPending clientId =>
    obtain ⟨-, rfl⟩ := Prod.mk.inj (Except.ok.inj done)
    exact rewrite_change (fun _ => ⟨rfl, rfl, rfl, rfl, rfl, rfl, rfl⟩) fun _ _ => by simp
  | terminate cohortId reason =>
    obtain ⟨-, rfl⟩ := Prod.mk.inj (Except.ok.inj done)
    refine .kept ?_
    unfold Store.terminate
    dsimp only
    split <;> rfl
  | register cohort => exact .kept (congrArg (·.2.orders) (Except.ok.inj done)).symm
  | hand request => exact .kept (congrArg (·.2.orders) (Except.ok.inj done)).symm
  | recordAccount cohortId digest => exact .kept (congrArg (·.2.orders) (Except.ok.inj done)).symm
  | handOff key => exact .kept (congrArg (·.2.orders) (Except.ok.inj done)).symm
  | pause cohortId reason => exact .kept (congrArg (·.2.orders) (Except.ok.inj done)).symm
  | control cohortId reason killSwitch =>
    exact .kept (congrArg (·.2.orders) (Except.ok.inj done)).symm

theorem rewriteFrom_frame (s : Store) (clientId : String) (status : LifecycleState)
    (change : EventOrder → EventOrder) {P : Prop} :
    (s.rewriteFrom clientId status change).2.handed = s.handed ∧
      ((s.rewriteFrom clientId status change).2.cohorts = s.cohorts ∨ P) := by
  unfold Store.rewriteFrom
  split
  · split
    · exact ⟨rfl, .inl rfl⟩
    · exact ⟨rfl, .inl rfl⟩
  · exact ⟨rfl, .inl rfl⟩

/-- Only a submission adds to what the broker was handed, and the registry only grows. -/
theorem apply_frame {transaction : Transaction} (done : s.apply transaction = .ok (effective, t)) :
    (t.handed = s.handed ∧
      (t.cohorts = s.cohorts ∨ ∃ cohort, transaction = .register cohort ∧
        t.cohorts = s.cohorts.setDefault cohort.settings.cohortId cohort)) ∨
    ∃ request, transaction = .hand request ∧ t = { s with handed := s.handed ++ [request] } := by
  cases transaction with
  | enter intent =>
    obtain rfl | ⟨row, budgets, claims, -, -, rfl⟩ := enter_outcome done
    · exact .inl ⟨rfl, .inl rfl⟩
    · exact .inl ⟨rfl, .inl rfl⟩
  | reserveExit intent =>
    obtain ⟨-, rfl, -⟩ | ⟨-, -, rfl⟩ := reserveExit_outcome done
    · exact .inl ⟨rfl, .inl rfl⟩
    · exact .inl ⟨rfl, .inl rfl⟩
  | expireUnsent cohortId clientId at_ claimed =>
    obtain ⟨row, -, ⟨-, rfl⟩ | ⟨-, budgeted, budgets, rfl⟩⟩ := expireUnsent_outcome done
    · exact .inl ⟨rfl, .inl rfl⟩
    · exact .inl ⟨rfl, .inl rfl⟩
  | observe policy clientId response =>
    obtain ⟨row, -, ⟨-, rfl⟩ | ⟨row', -, rfl⟩⟩ := store_observe_outcome done
    · exact .inl ⟨rfl, .inl rfl⟩
    · exact .inl ⟨rfl, .inl rfl⟩
  | claim clientId =>
    obtain ⟨-, rfl⟩ := Prod.mk.inj (Except.ok.inj done)
    exact .inl (rewriteFrom_frame s clientId _ _)
  | expireExit clientId =>
    obtain ⟨-, rfl⟩ := Prod.mk.inj (Except.ok.inj done)
    exact .inl (rewriteFrom_frame s clientId _ _)
  | terminate cohortId reason =>
    obtain ⟨-, rfl⟩ := Prod.mk.inj (Except.ok.inj done)
    unfold Store.terminate
    dsimp only
    split
    · exact .inl ⟨rfl, .inl rfl⟩
    · exact .inl ⟨rfl, .inl rfl⟩
  | register cohort =>
    obtain ⟨-, rfl⟩ := Prod.mk.inj (Except.ok.inj done)
    exact .inl ⟨rfl, .inr ⟨cohort, rfl, rfl⟩⟩
  | hand request =>
    obtain ⟨-, rfl⟩ := Prod.mk.inj (Except.ok.inj done)
    exact .inr ⟨request, rfl, rfl⟩
  | updateLink | attempted | reject | cancelPending | recordAccount | handOff | pause | control =>
    obtain ⟨-, rfl⟩ := Prod.mk.inj (Except.ok.inj done)
    exact .inl ⟨rfl, .inl rfl⟩

end changes

/-! ## Every reachable database -/

def Store.Step (s t : Store) : Prop :=
  ∃ transaction effective, transaction.Allowed s ∧ s.apply transaction = .ok (effective, t)

/-- By any transactions in any order: of one engine or of several, stopped anywhere. -/
def Store.Reaches : Store → Store → Prop := Relation.ReflTransGen Store.Step

structure Store.Sound (s : Store) : Prop where
  named : ∀ clientId row, s.orders.get? clientId = some row → row.clientOrderId = clientId
  unclaimed : ∀ clientId row, s.orders.get? clientId = some row → row.status = .approved →
    row.Unclaimed
  sent : ∀ request ∈ s.handed, ∃ row, s.orders.get? request.clientOrderId = some row ∧
    row.status ≠ .approved
  registered : ∀ cohortId cohort, s.cohorts.get? cohortId = some cohort →
    cohort.settings.cohortId = cohortId

/-- What a later database still has of an earlier one. -/
structure Store.Later (s t : Store) : Prop where
  keys : s.orders.keys <+: t.orders.keys
  rows : ∀ clientId row, s.orders.get? clientId = some row →
    ∃ row', t.orders.get? clientId = some row' ∧ row.Same row' ∧
      (row'.status = .approved → row' = row)
  handed : s.handed <+: t.handed

theorem Store.Later.refl (s : Store) : s.Later s :=
  ⟨List.prefix_rfl, fun _ row found => ⟨row, found, .refl row, fun _ => rfl⟩, List.prefix_rfl⟩

theorem Store.Later.trans {s t u : Store} (one : s.Later t) (two : t.Later u) : s.Later u := by
  refine ⟨one.keys.trans two.keys, fun clientId row found => ?_, one.handed.trans two.handed⟩
  obtain ⟨mid, foundMid, sameMid, keptMid⟩ := one.rows clientId row found
  obtain ⟨last, foundLast, sameLast, keptLast⟩ := two.rows clientId mid foundMid
  refine ⟨last, foundLast, sameMid.trans sameLast, fun approved => ?_⟩
  obtain rfl := keptLast approved
  exact keptMid approved

section steps

variable {s t : Store}

theorem Change.rows {old new : Dict String EventOrder} (change : Change old new) {clientId : String}
    {row : EventOrder} (found : old.get? clientId = some row) :
    ∃ row', new.get? clientId = some row' ∧ row.Same row' ∧
      (row'.status = .approved → row' = row) := by
  cases change with
  | kept orders => exact ⟨row, orders ▸ found, .refl row, fun _ => rfl⟩
  | born other fresh unclaimed orders =>
    refine ⟨row, ?_, .refl row, fun _ => rfl⟩
    rw [orders, Dict.get?_set, if_neg, found]
    rintro rfl
    exact nomatch fresh ▸ found
  | moved other before after foundOther same left orders =>
    rw [orders, Dict.get?_set]
    by_cases here : clientId = other
    · subst here
      obtain rfl := Option.some.inj (found.symm.trans foundOther)
      exact ⟨after, if_pos rfl, same, fun approved => absurd approved left⟩
    · exact ⟨row, (if_neg (Ne.symm here)).trans found, .refl row, fun _ => rfl⟩

theorem Change.keys {old new : Dict String EventOrder} (change : Change old new) :
    old.keys <+: new.keys := by
  cases change with
  | kept orders => exact orders ▸ List.prefix_rfl
  | born row fresh unclaimed orders =>
    rw [orders, Dict.keys_set]
    split
    · exact List.prefix_rfl
    · exact List.prefix_append _ _
  | moved clientId row row' found same left orders =>
    rw [orders, Dict.keys_set]
    split
    · exact List.prefix_rfl
    · exact List.prefix_append _ _

theorem Store.Step.later (step : s.Step t) : s.Later t := by
  obtain ⟨transaction, effective, allowed, done⟩ := step
  have change := apply_change allowed done
  refine ⟨change.keys, fun clientId row found => change.rows found, ?_⟩
  obtain ⟨handed, -⟩ | ⟨request, -, rfl⟩ := apply_frame done
  · exact handed ▸ List.prefix_rfl
  · exact List.prefix_append _ _

/-- A row of the new database is one of the old, just born, or was moved and so claimed. -/
theorem Change.origin {old new : Dict String EventOrder} (change : Change old new)
    {clientId : String} {row' : EventOrder} (found : new.get? clientId = some row') :
    old.get? clientId = some row' ∨
      (old.get? clientId = none ∧ row'.clientOrderId = clientId ∧ row'.Unclaimed) ∨
      ∃ row, old.get? clientId = some row ∧ row.Same row' ∧ row'.status ≠ .approved := by
  cases change with
  | kept orders => exact .inl (orders ▸ found)
  | born row fresh unclaimed orders =>
    rw [orders, Dict.get?_set] at found
    split at found
    · next here =>
      subst here
      obtain rfl := Option.some.inj found
      exact .inr (.inl ⟨fresh, rfl, unclaimed⟩)
    · exact .inl found
  | moved other row after foundOther same left orders =>
    rw [orders, Dict.get?_set] at found
    split at found
    · next here =>
      subst here
      obtain rfl := Option.some.inj found
      exact .inr (.inr ⟨row, foundOther, same, left⟩)
    · exact .inl found

theorem Store.Step.sound (sound : s.Sound) (step : s.Step t) : t.Sound := by
  have later := step.later
  obtain ⟨transaction, effective, allowed, done⟩ := step
  have change := apply_change allowed done
  refine ⟨fun clientId row found => ?_, fun clientId row found approved => ?_,
    fun request member => ?_, fun cohortId cohort found => ?_⟩
  · obtain before | ⟨-, named, -⟩ | ⟨before, foundBefore, same, -⟩ := change.origin found
    · exact sound.named _ _ before
    · exact named
    · exact same.clientOrderId.trans (sound.named _ _ foundBefore)
  · obtain before | ⟨-, -, unclaimed⟩ | ⟨-, -, -, left⟩ := change.origin found
    · exact sound.unclaimed _ _ before approved
    · exact unclaimed
    · exact absurd approved left
  · obtain ⟨row, found, claimed⟩ : ∃ row, s.orders.get? request.clientOrderId = some row ∧
        row.status ≠ .approved := by
      obtain ⟨handed, -⟩ | ⟨sent, rfl, rfl⟩ := apply_frame done
      · exact sound.sent request (handed ▸ member)
      · rcases List.mem_append.mp member with old | new
        · exact sound.sent request old
        · obtain rfl := List.mem_singleton.mp new
          exact allowed
    obtain ⟨row', found', -, kept⟩ := later.rows _ _ found
    exact ⟨row', found', fun approved => claimed (kept approved ▸ approved)⟩
  · obtain ⟨-, same | ⟨added, -, grown⟩⟩ | ⟨request, -, rfl⟩ := apply_frame done
    · exact sound.registered _ _ (same ▸ found)
    · rw [grown, Dict.get?_setDefault] at found
      split at found
      · next here =>
        subst here
        cases known : s.cohorts.get? added.settings.cohortId with
        | none =>
          obtain rfl := Option.some.inj (known ▸ found)
          rfl
        | some old =>
          obtain rfl := Option.some.inj (known ▸ found)
          exact sound.registered _ _ known
      · exact sound.registered _ _ found
    · exact sound.registered _ _ found

theorem Store.Reaches.later (reaches : s.Reaches t) : s.Later t := by
  induction reaches with
  | refl => exact .refl s
  | tail _ step ih => exact ih.trans step.later

theorem Store.Reaches.sound (sound : s.Sound) (reaches : s.Reaches t) : t.Sound := by
  induction reaches with
  | refl => exact sound
  | tail _ step ih => exact step.sound ih

end steps

end TradeAgent.Event
