import TradeAgent.EventStore

/-! Broker snapshots of one order: a fill never goes back and a closed order is reopened only by a further fill; the
snapshots of one history leave the row where its last snapshot does, however they arrive. -/
namespace TradeAgent.Event

open Scalp (BrokerStatus Stamp AlpacaPaperOrder)

/-! ## Any snapshots -/

structure Observation where
  policy : EntryPolicy
  clientId : String
  response : AlpacaPaperOrder

/-- The store after a snapshot; one that raises is rolled back. -/
def Store.observed (s : Store) (call : Observation) : Store :=
  match s.observe call.policy call.clientId call.response with
  | .ok (_, t) => t
  | .error _ => s

/-- A final order that a snapshot would reopen without a further fill. -/
def EventOrder.reopens (row : EventOrder) (response : AlpacaPaperOrder) : Bool :=
  row.status.final && !(lifecycleStateFromAlpaca response).final && response.filledQuantity ≤ row.filledQuantity

section rows

variable {s : Store} {row next : EventOrder} {response p : AlpacaPaperOrder} {policy : EntryPolicy}

theorem not_reopens_of_fresh (fresh : row.stale response = .ok false) : row.reopens response = false := by
  unfold EventOrder.stale at fresh
  dsimp only at fresh
  split at fresh
  all_goals
    obtain ⟨older, -, fresh⟩ := bind_ok_iff.mp fresh
    exact (Bool.or_eq_false_iff.mp (Except.ok.inj fresh)).2

/-- A row is left as it is, or takes a snapshot of its own order that is not stale. -/
theorem observed_row (call : Observation) {clientId : String} (found : s.orders.get? clientId = some row) :
    ∃ next, (s.observed call).orders.get? clientId = some next ∧ (next = row ∨
      call.clientId = clientId ∧ row.stale call.response = .ok false ∧
        row.filledQuantity ≤ call.response.filledQuantity ∧ ∃ plan, next = row.take call.response plan) := by
  unfold Store.observed
  split
  next effective t done =>
    obtain ⟨old, there, ⟨-, rfl⟩ | ⟨new, taken, rfl⟩⟩ := store_observe_outcome done
    · exact ⟨row, found, .inl rfl⟩
    · by_cases own : call.clientId = clientId
      · subst own
        rw [there] at found
        obtain rfl := Option.some.inj found
        obtain ⟨-, fresh, grown, plan, -, rfl⟩ := observe_outcome taken
        refine ⟨_, ?_, .inr ⟨rfl, fresh, grown, plan, rfl⟩⟩
        rw [Store.rewrite, Dict.modify_of_get there, Dict.get?_set_same]
      · refine ⟨row, ?_, .inl rfl⟩
        rw [Store.rewrite, Dict.modify_of_get there, Dict.get?_set, if_neg own]
        exact found
  next => exact ⟨row, found, .inl rfl⟩

theorem observed_filled (calls : List Observation) {clientId : String} (found : s.orders.get? clientId = some row) :
    ∃ next, (calls.foldl Store.observed s).orders.get? clientId = some next ∧
      row.filledQuantity ≤ next.filledQuantity := by
  induction calls generalizing s row with
  | nil => exact ⟨row, found, le_rfl⟩
  | cons call rest ih =>
    obtain ⟨mid, there, step⟩ := observed_row call found
    have grown : row.filledQuantity ≤ mid.filledQuantity := by
      rcases step with rfl | ⟨-, -, grown, plan, rfl⟩
      · exact le_rfl
      · exact grown
    obtain ⟨last, here, more⟩ := ih there
    exact ⟨last, here, grown.trans more⟩

/-- A snapshot that reopens a final order brings a further fill. -/
theorem observed_reopened (call : Observation) {clientId : String} (found : s.orders.get? clientId = some row)
    (after : (s.observed call).orders.get? clientId = some next) (final : row.status.final = true)
    (reopened : next.status.final = false) :
    call.clientId = clientId ∧ next.filledQuantity = call.response.filledQuantity ∧
      row.filledQuantity < next.filledQuantity := by
  obtain ⟨taken, there, step⟩ := observed_row call found
  rw [after] at there
  obtain rfl := Option.some.inj there
  rcases step with rfl | ⟨own, fresh, -, plan, rfl⟩
  · rw [final] at reopened
    cases reopened
  · refine ⟨own, rfl, ?_⟩
    have closed := not_reopens_of_fresh fresh
    unfold EventOrder.reopens at closed
    rw [final, show (lifecycleStateFromAlpaca call.response).final = false from reopened] at closed
    exact not_le.mp (of_decide_eq_false closed)

end rows

/-! ## One history -/

/-- One snapshot of a broker history before a later one. -/
structure Precedes (s later : AlpacaPaperOrder) : Prop where
  version : ∃ a b, s.updatedAt = some a ∧ later.updatedAt = some b ∧ Stamp.before a b = .ok true
  quantity : s.filledQuantity ≤ later.filledQuantity
  unfinished : (lifecycleStateFromAlpaca s).final = false

/-- The broker's history of the order of a row, oldest first. -/
structure Chronicle (row : EventOrder) (history : List AlpacaPaperOrder) : Prop where
  ordered : history.Pairwise Precedes
  matching : ∀ s ∈ history, row.reconciles s
  one : ∀ s ∈ history, ∀ t ∈ history, s.id = t.id
  priced : ∀ s ∈ history, 0 < s.filledQuantity → ∀ price ∈ s.filledAveragePrice, 0 < price

/-- Nothing of the broker is stored yet, or a snapshot of the history. -/
def EventOrder.Holds (row : EventOrder) (history : List AlpacaPaperOrder) : Prop :=
  match row.link.broker with
  | none => row.filledQuantity = 0
  | some p => p ∈ history ∧ row.filledQuantity = p.filledQuantity

/-- What is stored of the broker's state. -/
structure Progress where
  status : LifecycleState
  filledQuantity : ℚ
  broker : Option AlpacaPaperOrder
  deriving DecidableEq

def EventOrder.progress (row : EventOrder) : Progress := ⟨row.status, row.filledQuantity, row.link.broker⟩

def shown (s : AlpacaPaperOrder) : Progress := ⟨lifecycleStateFromAlpaca s, s.filledQuantity, some s⟩

theorem before_irrefl (a : Stamp) : Stamp.before a a = .ok false := by
  cases a <;> exact congrArg Except.ok (decide_eq_false (lt_irrefl _))

theorem before_asymm {a b : Stamp} (before : Stamp.before a b = .ok true) : Stamp.before b a = .ok false := by
  cases a <;> cases b
  · exact congrArg Except.ok (decide_eq_false (lt_asymm (of_decide_eq_true (Except.ok.inj before))))
  · cases before
  · cases before
  · exact congrArg Except.ok (decide_eq_false (lt_asymm (of_decide_eq_true (Except.ok.inj before))))

section history

variable {store : Store} {row : EventOrder} {s t p last : AlpacaPaperOrder} {policy : EntryPolicy}
  {history : List AlpacaPaperOrder}

/-- Against nothing stored, the same snapshot or an earlier one only the reopening of a final order is stale. -/
theorem stale_later (later : ∀ p ∈ row.link.broker, p = s ∨ Precedes p s) : row.stale s = .ok (row.reopens s) := by
  unfold EventOrder.stale EventOrder.reopens
  cases stored : row.link.broker with
  | none => rfl
  | some p =>
    rw [Option.bind_some]
    rcases later p stored with rfl | precedes
    · cases stamped : p.updatedAt with
      | none => rfl
      | some a =>
        dsimp only
        rw [before_irrefl]
        rfl
    · obtain ⟨a, b, stampedP, stampedS, before⟩ := precedes.version
      rw [stampedP, stampedS]
      dsimp only
      rw [before_asymm before]
      rfl

theorem stale_earlier (stored : row.link.broker = some p) (precedes : Precedes s p) : row.stale s = .ok true := by
  obtain ⟨a, b, stampedS, stampedP, before⟩ := precedes.version
  unfold EventOrder.stale
  rw [stored, Option.bind_some, stampedS, stampedP]
  dsimp only
  rw [before]
  rfl

theorem Chronicle.linear (h : Chronicle row history) (s_ : s ∈ history) (t_ : t ∈ history) :
    s = t ∨ Precedes s t ∨ Precedes t s :=
  List.Pairwise.forall_of_forall_of_flip (R := fun a b => a = b ∨ Precedes a b ∨ Precedes b a)
    (fun _ _ => .inl rfl) (h.ordered.imp fun before => .inr (.inl before))
    (h.ordered.imp fun before => .inr (.inr before)) s_ t_

/-- A snapshot of the history is stale against an earlier version of it, or where it reopens the order. -/
theorem Chronicle.stale (h : Chronicle row history) (held : row.Holds history) (s_ : s ∈ history) :
    row.stale s = .ok true ∧ (∃ p ∈ row.link.broker, Precedes s p) ∨
      row.stale s = .ok (row.reopens s) ∧ ∀ p ∈ row.link.broker, p = s ∨ Precedes p s := by
  unfold EventOrder.Holds at held
  cases stored : row.link.broker with
  | none =>
    have later : ∀ p ∈ row.link.broker, p = s ∨ Precedes p s := by
      rw [stored]
      exact fun p absent => nomatch absent
    exact .inr ⟨stale_later later, stored ▸ later⟩
  | some p =>
    rw [stored] at held
    rcases h.linear held.1 s_ with same | before | after
    · refine .inr ⟨stale_later ?_, ?_⟩ <;> simp [stored, same]
    · refine .inr ⟨stale_later ?_, ?_⟩ <;> simp [stored, before]
    · exact .inl ⟨stale_earlier stored after, p, rfl, after⟩

theorem Chronicle.protection (h : Chronicle row history) (s_ : s ∈ history) (policy : EntryPolicy) :
    ∃ plan, row.protectionAfter policy s = .ok plan := by
  unfold EventOrder.protectionAfter
  split
  next price priced =>
    split
    next rebased =>
      have positive : 0 < price := h.priced s s_ rebased.2.2 price priced
      unfold TradeAgent.Event.protection
      rw [if_neg (not_le.mpr positive)]
      exact ⟨_, rfl⟩
    next => exact ⟨_, rfl⟩
  next => exact ⟨_, rfl⟩

/-- No snapshot of the history raises: it is ignored where it is stale, else it is taken. -/
theorem Chronicle.observe (h : Chronicle row history) (held : row.Holds history) (s_ : s ∈ history)
    (policy : EntryPolicy) :
    row.stale s = .ok true ∧ row.observe policy s = .ok none ∨
      row.stale s = .ok false ∧ ∃ plan, row.observe policy s = .ok (some (row.take s plan)) := by
  unfold EventOrder.observe
  rw [if_neg (not_not.mpr (h.matching s s_))]
  rcases h.stale held s_ with ⟨stale, -⟩ | ⟨stale, later⟩
  · rw [stale]
    exact .inl ⟨rfl, rfl⟩
  · rw [stale]
    cases row.reopens s with
    | true => exact .inl ⟨rfl, rfl⟩
    | false =>
      have grown : row.filledQuantity ≤ s.filledQuantity := by
        unfold EventOrder.Holds at held
        cases stored : row.link.broker with
        | none =>
          rw [stored] at held
          exact held.trans_le (h.matching s s_).2.2.2.2.1
        | some p =>
          rw [stored] at held
          rw [held.2]
          rcases later p stored with rfl | before
          · exact le_rfl
          · exact before.quantity
      obtain ⟨plan, planned⟩ := h.protection s_ policy
      refine .inr ⟨rfl, plan, ?_⟩
      change (if s.filledQuantity < row.filledQuantity then _ else _) = _
      rw [if_neg (not_lt.mpr grown), planned]
      rfl

theorem Chronicle.take (h : Chronicle row history) (s_ : s ∈ history) (plan : Option Protection) :
    Chronicle (row.take s plan) history where
  ordered := h.ordered
  matching t t_ := by
    obtain ⟨client, symbol, side, -, low, high⟩ := h.matching t t_
    refine ⟨client, symbol, side, fun id known => ?_, low, high⟩
    rw [← Option.some.inj known]
    exact h.one t t_ s s_
  one := h.one
  priced := h.priced

theorem take_holds (row : EventOrder) (s_ : s ∈ history) (plan : Option Protection) :
    (row.take s plan).Holds history := ⟨s_, rfl⟩

/-- Where the last snapshot puts the row. -/
def EventOrder.outcome (row : EventOrder) (last : AlpacaPaperOrder) : Progress :=
  match row.stale last with
  | .ok false => shown last
  | _ => row.progress

theorem outcome_fresh (fresh : row.stale last = .ok false) : row.outcome last = shown last := by
  rw [EventOrder.outcome, fresh]

theorem outcome_stale (stale : row.stale last = .ok true) : row.outcome last = row.progress := by
  rw [EventOrder.outcome, stale]

/-- The last snapshot stays fresh when an earlier one is taken. -/
theorem stale_take_earlier (precedes : Precedes s last) (plan : Option Protection) :
    (row.take s plan).stale last = .ok false := by
  have later : ∀ p ∈ (row.take s plan).link.broker, p = last ∨ Precedes p last := by
    intro p stored
    rw [← Option.some.inj stored]
    exact .inr precedes
  rw [stale_later later, EventOrder.reopens, show (row.take s plan).status.final = false from precedes.unfinished]
  rfl

theorem stale_take_last (plan : Option Protection) : (row.take last plan).stale last = .ok false := by
  have later : ∀ p ∈ (row.take last plan).link.broker, p = last ∨ Precedes p last :=
    fun p stored => .inl (Option.some.inj stored).symm
  rw [stale_later later, EventOrder.reopens]
  change Except.ok ((lifecycleStateFromAlpaca last).final && !(lifecycleStateFromAlpaca last).final && _) = _
  rw [Bool.and_not_self]
  rfl

/-- Where the last snapshot would reopen the order, every other one would. -/
theorem Chronicle.stale_all (h : Chronicle row (history ++ [last])) (held : row.Holds (history ++ [last]))
    (stale : row.stale last = .ok true) (s_ : s ∈ history ++ [last]) : row.stale s = .ok true := by
  have before : ∀ t ∈ history, Precedes t last :=
    fun t t_ => (List.pairwise_append.mp h.ordered).2.2 t t_ last List.mem_cons_self
  have own : last ∈ history ++ [last] := List.mem_append_right _ List.mem_cons_self
  rcases h.stale held s_ with ⟨stale, -⟩ | ⟨judged, -⟩
  · exact stale
  · rcases List.mem_append.mp s_ with earlier | same
    · have reopens : row.reopens last = true := by
        have later : ∀ p ∈ row.link.broker, p = last ∨ Precedes p last := by
          intro p stored
          unfold EventOrder.Holds at held
          rw [stored] at held
          rcases List.mem_append.mp held.1 with old | new
          · exact .inr (before p old)
          · exact .inl (List.mem_singleton.mp new)
        rw [stale_later later] at stale
        exact Except.ok.inj stale
      obtain ⟨closed, filled⟩ := Bool.and_eq_true_iff.mp reopens
      obtain ⟨final, -⟩ := Bool.and_eq_true_iff.mp closed
      rw [judged, EventOrder.reopens, final, (before s earlier).unfinished]
      exact congrArg Except.ok (decide_eq_true ((before s earlier).quantity.trans (of_decide_eq_true filled)))
    · exact List.mem_singleton.mp same ▸ stale

/-- A snapshot of the history leaves the outcome as it is, and the last one reaches it. -/
theorem Chronicle.step (h : Chronicle row (history ++ [last])) (held : row.Holds (history ++ [last]))
    (s_ : s ∈ history ++ [last]) (policy : EntryPolicy) :
    ∃ next, (row.observe policy s = .ok none ∧ next = row ∨
        ∃ plan, row.observe policy s = .ok (some next) ∧ next = row.take s plan) ∧
      next.outcome last = row.outcome last ∧
      (s = last ∨ row.progress = row.outcome last → next.progress = row.outcome last) := by
  have before : ∀ t ∈ history, Precedes t last :=
    fun t t_ => (List.pairwise_append.mp h.ordered).2.2 t t_ last List.mem_cons_self
  have own : last ∈ history ++ [last] := List.mem_append_right _ List.mem_cons_self
  rcases h.observe held s_ policy with ⟨stale, ignored⟩ | ⟨fresh, plan, taken⟩
  · refine ⟨row, .inl ⟨ignored, rfl⟩, rfl, ?_⟩
    rintro (rfl | there)
    · exact (outcome_stale stale).symm
    · exact there
  · have lastFresh : row.stale last = .ok false := by
      rcases h.stale held own with ⟨stale, -⟩ | ⟨judged, -⟩
      · rw [h.stale_all held stale s_] at fresh
        cases fresh
      · cases reopens : row.reopens last with
        | false => rw [judged, reopens]
        | true =>
          rw [h.stale_all held (by rw [judged, reopens]) s_] at fresh
          cases fresh
    rw [outcome_fresh lastFresh]
    refine ⟨row.take s plan, .inr ⟨plan, taken, rfl⟩, ?_⟩
    rcases List.mem_append.mp s_ with earlier | same
    · refine ⟨outcome_fresh (stale_take_earlier (before s earlier) plan), ?_⟩
      rintro (rfl | there)
      · rfl
      · -- An earlier snapshot is stale once the last one is stored.
        rw [stale_earlier (congrArg Progress.broker there) (before s earlier)] at fresh
        cases fresh
    · obtain rfl := List.mem_singleton.mp same
      exact ⟨outcome_fresh (stale_take_last plan), fun _ => rfl⟩

/-- The row is in the store, it holds what the history allows, and no other row has the broker's order. -/
structure Ready (store : Store) (history : List AlpacaPaperOrder) (row : EventOrder) : Prop where
  found : store.orders.get? row.clientOrderId = some row
  chronicle : Chronicle row history
  held : row.Holds history
  alone : ∀ other ∈ store.orders.values, other.clientOrderId ≠ row.clientOrderId →
    ∀ s ∈ history, other.brokerOrderId ≠ some s.id

theorem Ready.take (h : Ready store history row) (s_ : s ∈ history) (plan : Option Protection) :
    Ready (store.rewrite row.clientOrderId fun _ => row.take s plan) history (row.take s plan) where
  found := by
    change (store.orders.modify row.clientOrderId _).get? row.clientOrderId = _
    rw [Dict.modify_of_get h.found, Dict.get?_set_same]
  chronicle := h.chronicle.take s_ plan
  held := take_holds row s_ plan
  alone := by
    intro other member apart
    obtain ⟨key, there⟩ := Dict.mem_values.mp member
    rw [Store.rewrite, Dict.modify_of_get h.found, Dict.get?_set] at there
    split at there
    · rw [← Option.some.inj there] at apart
      exact absurd rfl apart
    · exact h.alone other (Dict.mem_values.mpr ⟨key, there⟩) apart

theorem Ready.observe (h : Ready store (history ++ [last]) row) (s_ : s ∈ history ++ [last]) (policy : EntryPolicy) :
    ∃ effective t next, store.observe policy row.clientOrderId s = .ok (effective, t) ∧
      Ready t (history ++ [last]) next ∧ next.clientOrderId = row.clientOrderId ∧
      next.outcome last = row.outcome last ∧
      (s = last ∨ row.progress = row.outcome last → next.progress = row.outcome last) := by
  obtain ⟨next, seen, outcome, reached⟩ := h.chronicle.step h.held s_ policy
  unfold Store.observe
  rw [h.found]
  dsimp only
  rcases seen with ⟨ignored, rfl⟩ | ⟨plan, taken, rfl⟩
  · rw [ignored]
    exact ⟨false, store, next, rfl, h, rfl, outcome, reached⟩
  · rw [taken]
    refine ⟨true, _, row.take s plan, ?_, h.take s_ plan, rfl, outcome, reached⟩
    exact if_neg fun ⟨other, member, apart, same⟩ => h.alone other member apart s s_ same

/-- The store after the snapshots, if none of them raises. -/
def Store.observeAll (store : Store) (policy : EntryPolicy) (clientId : String)
    (arrivals : List AlpacaPaperOrder) : Except Fault Store :=
  arrivals.foldlM (fun s response => (s.observe policy clientId response).map Prod.snd) store

theorem Ready.observeAll (h : Ready store (history ++ [last]) row) {arrivals : List AlpacaPaperOrder}
    (from_ : ∀ s ∈ arrivals, s ∈ history ++ [last]) (policy : EntryPolicy) :
    ∃ t next, store.observeAll policy row.clientOrderId arrivals = .ok t ∧
      Ready t (history ++ [last]) next ∧ next.clientOrderId = row.clientOrderId ∧
      (last ∈ arrivals ∨ row.progress = row.outcome last → next.progress = row.outcome last) := by
  induction arrivals generalizing store row with
  | nil =>
    refine ⟨store, row, rfl, h, rfl, ?_⟩
    rintro (member | there)
    · cases member
    · exact there
  | cons s rest ih =>
    obtain ⟨effective, mid, next, done, ready, named, outcome, reached⟩ := h.observe (from_ s List.mem_cons_self) policy
    obtain ⟨t, final, run, ready', named', reached'⟩ := ih ready fun other member =>
      from_ other (List.mem_cons_of_mem s member)
    rw [named] at run named'
    rw [outcome] at reached'
    refine ⟨t, final, ?_, ready', named', ?_⟩
    · unfold Store.observeAll at run ⊢
      rw [List.foldlM_cons, done]
      exact run
    · rintro (member | there)
      · rcases List.mem_cons.mp member with rfl | later
        · exact reached' (.inr (reached (.inl rfl)))
        · exact reached' (.inl later)
      · exact reached' (.inr (reached (.inr there)))

end history

/-- Two shares to be bought, claimed for dispatch. -/
def sentOrder : EventOrder where
  orderId := 0
  clientOrderId := "entry"
  owningCohort := "cohort"
  symbol := "ABCD"
  side := .buy
  quantity := 2
  status := .reconciliationRequired
  createdAt := 0
  link := {}

def sentStore : Store where
  orders := Dict.empty.set "entry" sentOrder
  cohorts := .empty
  pauses := .empty
  killSwitch := false
  brokerAccounts := .empty
  budgets := .empty
  claims := []
  handoffs := []
  handed := []

def sentSnapshot (status : BrokerStatus) (filledQuantity : ℚ) (updatedAt : Instant) : AlpacaPaperOrder where
  id := "broker"
  clientOrderId := "entry"
  status := status
  symbol := "ABCD"
  side := .buy
  quantity := some 2
  filledQuantity := filledQuantity
  filledAveragePrice := some 10
  createdAt := .aware 0
  updatedAt := some (.aware updatedAt)
  sizeBasis := Scalp.snapshot_sized

theorem sent_ready :
    Ready sentStore ([sentSnapshot .partiallyFilled 1 1] ++ [sentSnapshot .filled 2 2]) sentOrder where
  found := rfl
  chronicle := {
    ordered := List.pairwise_pair.mpr ⟨⟨_, _, rfl, rfl, rfl⟩, by decide +kernel, rfl⟩
    matching := by decide +kernel
    one := by decide +kernel
    priced := by decide +kernel }
  held := rfl
  alone := by decide +kernel

end TradeAgent.Event
