import TradeAgent.Library.Dict
import TradeAgent.Library.Interleaving
import TradeAgent.ScalpOrder

/-! The life of an owned order across the shared database: reservation, dispatch,
reconciliation and cancellation, each cut at its transactions and its broker calls. Any
number of engine instances run these steps; a raise or a crash ends the thread it hits. -/
namespace TradeAgent.Scalp

/-- The row of the event worker's lease. -/
structure Lease where
  ownerId : String
  acquiredAt : Instant
  deriving DecidableEq, Repr

/-- What happened to an order at the broker's side of the fence. -/
inductive Effect where
  | submitted (clientId : String)
  | expired (clientId : String)
  deriving DecidableEq, Repr

/-- The shared rows, and the effects so far, latest first. -/
structure Store where
  orders : Dict String OwnedOrder
  lease : Option Lease
  log : List Effect

/-- An empty database. -/
def Store.initial (lease : Option Lease) : Store := ⟨.empty, lease, []⟩

/-- The lease check of a transaction. -/
def Store.leased (s : Store) (ownerId : String) (now : Instant) : Bool :=
  s.lease.any fun row => row.ownerId = ownerId && decide (row.acquiredAt ≤ now) &&
    decide (now - row.acquiredAt ≤ 30 * second)

def OwnedOrder.expireUnsent (order : OwnedOrder) (now : Instant) (reason : Option String) : OwnedOrder :=
  { order with
    status := .broker .expired, updatedAt := now, dispatchState := .expiredUnsent
    submissionError := (reason.map .preSubmit).or order.submissionError }

/-- Expire an order, whatever its row says by now. -/
def Store.expireUnsent (s : Store) (clientId : String) (now : Instant) (reason : Option String) : Store :=
  match s.orders.get? clientId with
  | some order => { s with
      orders := s.orders.set clientId (order.expireUnsent now reason)
      log := .expired clientId :: s.log }
  | none => s

/-- The one transition that leads to the broker. -/
def OwnedOrder.claim (order : OwnedOrder) (now : Instant) : OwnedOrder :=
  { order with
    dispatchState := .dispatching, submissionStartedAt := some now
    status := .reconciliationRequired, updatedAt := now }

def OwnedOrder.unknown (definitive : Bool) (statusCode : Option ℕ) (order : OwnedOrder) : OwnedOrder :=
  { order with dispatchState := .unknown, submissionError := some (.answered definitive statusCode) }

def OwnedOrder.reject (order : OwnedOrder) (now : Instant) : OwnedOrder :=
  { order with status := .broker .rejected, updatedAt := now, dispatchState := .brokerRejected }

/-- What is written of a new order; its client id comes from the decision, or from the
cycle and how many orders of the side it had. -/
structure Reservation where
  intent : OrderIntent
  expiresAt : Option Instant
  positive : 0 < intent.quantity
  deriving DecidableEq

def Reservation.order (r : Reservation) (now : Instant) : OwnedOrder where
  intent := r.intent
  updatedAt := now
  expiresAt := if r.intent.side = .buy then r.expiresAt else none
  sound := by simp

/-- Whether an unresolved order of the symbol is stored. -/
def Store.pending (s : Store) (symbol : List Char) : Bool :=
  s.orders.values.any fun order => order.intent.symbol = symbol && !order.status.final

section Fence

/-- One evaluation of the checks an entry passes twice. -/
structure EntryCheck where
  clock : Instant
  quoteValid : Bool
  manualStop : Bool
  cutoffPassed : Bool
  deriving DecidableEq

inductive DispatchQuoteRejection where
  | unavailable | staleOrInvalid | predatesOriginal | exceedsCap
  deriving DecidableEq, Repr

def DispatchQuoteRejection.text : DispatchQuoteRejection → String
  | .unavailable => "FRESH_DISPATCH_QUOTE_UNAVAILABLE"
  | .staleOrInvalid => "FRESH_DISPATCH_QUOTE_STALE_OR_INVALID"
  | .predatesOriginal => "DISPATCH_QUOTE_PREDATES_ORIGINAL_QUOTE"
  | .exceedsCap => "FRESH_DISPATCH_ASK_EXCEEDS_ORIGINAL_CAP"

/-- What the fence of an entry reads, in its order; the quote of a marketable experiment
and the economics of a qualified decision only where there is one. -/
structure EntryFence where
  initial : EntryCheck
  candidatePresent : Bool
  requiredCash : ℚ
  availableCash : ℚ
  dispatchQuote : Option DispatchQuoteRejection
  last : EntryCheck
  economicsApproved : Bool

/-- What the fence of an exit reads: its cycle's coins, and the account's. -/
structure ExitFence where
  ownedQuantity : ℚ
  available : ℚ
  unowned : ℚ

structure Fence where
  entry : EntryFence
  exit : ExitFence

inductive Verdict where
  | pass
  | expire (reason : Option String)
  deriving DecidableEq, Repr

def expired (expiresAt : Option Instant) (clock : Instant) : Bool :=
  expiresAt.any fun at_ => decide (at_ ≤ clock)

def entryVerdict (expiresAt : Option Instant) (f : EntryFence) : Verdict :=
  if expired expiresAt f.initial.clock then .expire (some "ENTRY_TTL_EXPIRED_BEFORE_SUBMISSION")
  else if !f.initial.quoteValid || f.initial.manualStop || !f.candidatePresent ||
      f.initial.cutoffPassed then .expire (some "INITIAL_EXECUTION_FENCE_REJECTED")
  else if f.availableCash < f.requiredCash then .expire none
  else
    match f.dispatchQuote with
    | some rejection => .expire (some rejection.text)
    | none =>
      if !f.last.quoteValid || f.last.manualStop || expired expiresAt f.last.clock ||
          f.last.cutoffPassed then .expire none
      else if f.economicsApproved then .pass else .expire none

/-- An exit may not exceed what the cycle owns, nor what the account has free of others'. -/
def exitVerdict (quantity : ℚ) (f : ExitFence) : Verdict :=
  if min f.ownedQuantity (max 0 (f.available - f.unowned)) < quantity then .expire none else .pass

def fence (row : OwnedOrder) (reading : Fence) : Verdict :=
  match row.intent.side with
  | .buy => entryVerdict row.expiresAt reading.entry
  | .sell => exitVerdict row.intent.quantity reading.exit

/-- Readings that let an entry pass. -/
def passingCheck : EntryCheck := ⟨1, true, false, false⟩

def passingFence : Fence where
  entry := ⟨passingCheck, true, 200, 1000, none, passingCheck, true⟩
  exit := ⟨0, 0, 0⟩

end Fence

/-- The arguments of one pass over an order, and what the pass reads beside its row. -/
structure Pass where
  now : Instant
  full : Bool
  exitRequested : Bool
  manualStop : Bool
  interval : ℤ

/-- Where a thread stands between two of its transactions or calls. -/
inductive Task where
  | reserving (r : Reservation)
  | dispatching (clientId : String)
  | claiming (clientId : String)
  | fencing (clientId : String) (row : OwnedOrder)
  | submitting (clientId : String)
  | unsent (clientId : String)
  | failed (clientId : String) (definitive rateLimited : Bool) (statusCode : Option ℕ)
  | lookingUp (clientId : String) (definitive : Bool)
  | rejecting (clientId : String) (reconciled : Bool)
  | updating (clientId : String) (snapshot : AlpacaPaperOrder) (received : Option Instant)
  | reconciling (clientId : String) (pass : Pass)
  | expiring (clientId : String)
  | inspecting (clientId : String) (definitive : Bool)
  | marking (clientId : String) (definitive : Bool)
  | cancelling (clientId : String) (pass : Pass)
  | requesting (clientId : String) (cancelRequestedAt : Option Instant) (now : Instant)
  | requested (clientId : String)
  | finding (clientId : String)

structure Thread where
  ownerId : String
  task : Task

/-- What a step gets from outside the database. -/
inductive Reply where
  | nothing
  | raised
  | fence (reading : Fence) (later : Instant)
  | snapshot (order : AlpacaPaperOrder)
  | http (definitive rateLimited : Bool) (statusCode : Option ℕ)

structure Outside where
  now : Instant
  reply : Reply

/-- A reconciliation reads its row long before it acts on it. -/
def reconcileRow (clientId : String) (row : OwnedOrder) (pass : Pass) : Option Task :=
  if row.dispatchState = .intent then some (.expiring clientId)
  else if !row.status.final || pass.full then
    let cancelDue := row.brokerOrderId.isSome && expired row.expiresAt pass.now
    if !pass.full && row.lastReconciledAt.isSome && row.cancelRequestedAt.isNone &&
        !pass.exitRequested && !cancelDue &&
        row.lastReconciledAt.any fun last => decide (pass.now - last < pass.interval) then none
    else some (.inspecting clientId (row.submissionError.any SubmissionError.definitive))
  else none

def cancelRow (clientId : String) (row : OwnedOrder) (pass : Pass) : Option Task :=
  if row.intent.side ≠ .buy ∨ row.status.final then none
  else if !(expired row.expiresAt pass.now || pass.exitRequested || pass.manualStop) then none
  else if row.dispatchState = .intent then some (.expiring clientId)
  else if row.brokerOrderId = none then none
  else if row.lastCancelAttemptAt.any fun last => decide (pass.now - last < pass.interval) then none
  else some (.requesting clientId row.cancelRequestedAt pass.now)

/-- The transaction a task stands before. -/
def transact (s : Store) (ownerId : String) (outside : Outside) : Task → Store × Option Task
  | .reserving r =>
    if s.leased ownerId outside.now && !s.pending r.intent.symbol then
      ({ s with orders := s.orders.setDefault r.intent.clientOrderId (r.order outside.now) },
        some (.dispatching r.intent.clientOrderId))
    else (s, none)
  | .dispatching clientId =>
    match s.orders.get? clientId with
    | some row => (s, if row.dispatchState = .intent then some (.claiming clientId) else none)
    | none => (s, none)
  | .claiming clientId =>
    match s.orders.get? clientId with
    | some row =>
      if s.leased ownerId outside.now && decide (row.dispatchState = .intent) then
        ({ s with orders := s.orders.set clientId (row.claim outside.now) },
          some (.fencing clientId (row.claim outside.now)))
      else (s, none)
    | none => (s, none)
  | .fencing clientId row =>
    match outside.reply with
    | .fence reading later =>
      if s.leased ownerId outside.now then
        match fence row reading with
        | .expire reason => (s.expireUnsent clientId outside.now reason, none)
        | .pass =>
          if s.leased ownerId later then (s, some (.submitting clientId))
          else (s, some (.unsent clientId))
      else (s, some (.unsent clientId))
    | _ => (s, some (.unsent clientId))
  | .submitting clientId =>
    ({ s with log := .submitted clientId :: s.log },
      match outside.reply with
      | .snapshot order => some (.updating clientId order none)
      | .http definitive rateLimited statusCode =>
        some (.failed clientId definitive rateLimited statusCode)
      | _ => none)
  | .unsent clientId => (s.expireUnsent clientId outside.now none, none)
  | .failed clientId definitive rateLimited statusCode =>
    ({ s with orders := s.orders.modify clientId (OwnedOrder.unknown definitive statusCode) },
      if rateLimited then none else some (.lookingUp clientId definitive))
  | .lookingUp clientId definitive =>
    (s, match outside.reply with
      | .snapshot order => some (.updating clientId order none)
      | _ => if definitive then some (.rejecting clientId false) else none)
  | .rejecting clientId reconciled =>
    ({ s with orders := s.orders.modify clientId fun order =>
        { order.reject outside.now with
          lastReconciledAt := if reconciled then some outside.now else order.lastReconciledAt } }, none)
  | .updating clientId snapshot received =>
    match s.orders.get? clientId with
    | some order =>
      match updateOrder order snapshot outside.now received with
      | .ok (order, _) => ({ s with orders := s.orders.set clientId order }, none)
      | .error _ => (s, none)
    | none => (s, none)
  | .reconciling clientId pass => (s, (s.orders.get? clientId).bind (reconcileRow clientId · pass))
  | .expiring clientId =>
    if s.leased ownerId outside.now then
      (s.expireUnsent clientId outside.now none, none)
    else (s, none)
  | .inspecting clientId definitive =>
    (s, match outside.reply with
      | .snapshot order => some (.updating clientId order none)
      | .nothing => some (.marking clientId definitive)
      | _ => none)
  | .marking clientId definitive =>
    ({ s with orders := s.orders.modify clientId fun order =>
        { order with lastReconciledAt := some outside.now } },
      if definitive then some (.rejecting clientId true) else none)
  | .cancelling clientId pass => (s, (s.orders.get? clientId).bind (cancelRow clientId · pass))
  | .requesting clientId cancelRequestedAt now =>
    if s.leased ownerId outside.now then
      ({ s with orders := s.orders.modify clientId fun order =>
          { order with
            cancelRequestedAt := cancelRequestedAt.or (some now), lastCancelAttemptAt := some now } },
        some (.requested clientId))
    else (s, none)
  | .requested clientId =>
    (s, if s.leased ownerId outside.now then some (.finding clientId) else none)
  | .finding clientId =>
    (s, match outside.reply with
      | .snapshot order => some (.updating clientId order none)
      | _ => none)

/-- A thread starts at the head of a reservation, a pass over an order, or an update. -/
def Task.first : Task → Bool
  | .reserving _ | .dispatching _ | .reconciling _ _ | .cancelling _ _ | .updating _ _ _ => true
  | _ => false

/-- The engines over one database; the lease row is taken and lost outside of them. -/
def engines : Interleaving.Program Store Thread Outside (Option Lease) where
  starts t := t.task.first
  act outside s t :=
    let next := transact s t.ownerId outside t.task
    (next.1, next.2.map fun task => ⟨t.ownerId, task⟩)
  env lease s := { s with lease := lease }

end TradeAgent.Scalp
