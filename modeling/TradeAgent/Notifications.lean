import Mathlib.Data.List.Sort
import TradeAgent.Domain
import TradeAgent.Library.Dict
import TradeAgent.Library.Interleaving
import TradeAgent.Library.Numeral

/-! The notification outbox and the dispatchers that share it. A claim outlives two minutes
only until another dispatcher takes it over; outcomes are recorded by notification alone. -/
namespace TradeAgent.Notification

open Interleaving

inductive NotificationStatus where
  | pending | sending | sent | failed | needsReview | suppressed
  deriving DecidableEq, Repr

structure Payload where
  summaryFormat : Option String := none
  localDate : Option ℤ := none
  timezone : Option String := none
  text : Option (List Char) := none
  deriving DecidableEq, Repr

structure OutboxRow where
  notificationId : String
  payload : Payload
  status : NotificationStatus := .pending
  attempts : ℕ := 0
  providerMessageId : Option String := none
  createdAt : Instant
  sentAt : Option Instant := none
  claimedAt : Option Instant := none
  deriving DecidableEq, Repr

structure OutboxMessage where
  notificationId : String
  payload : Payload
  attempts : ℕ
  deriving DecidableEq, Repr

abbrev Outbox := Dict String OutboxRow

/-! ## The daily policy -/

def dailySummaryFormat : String := "five-paragraph-daily-summary-v1"

structure DailyEmailPolicy where
  enabled : Bool
  timezone : String
  hour : ℤ
  minute : ℤ
  /-- The wall clock of the time zone. -/
  localTime : Instant → Instant
  dailyNotificationId : ℤ → String

def DailyEmailPolicy.currentId (policy : DailyEmailPolicy) (now : Instant) : String :=
  policy.dailyNotificationId (date (policy.localTime now))

def DailyEmailPolicy.eligibleId (policy : DailyEmailPolicy) (now : Instant) : Option String :=
  if ¬policy.enabled ∨
      policy.localTime now % day < policy.hour * 60 * TradeAgent.minute +
        policy.minute * TradeAgent.minute then none
  else some (policy.currentId now)

/-- The pieces between blank lines. -/
def paragraphs : List Char → List (List Char)
  | [] => [[]]
  | '\n' :: '\n' :: rest => [] :: paragraphs rest
  | c :: rest => match paragraphs rest with
    | first :: more => (c :: first) :: more
    | [] => [[c]]

def DailyEmailPolicy.validatesPayload (policy : DailyEmailPolicy) (payload : Payload)
    (now : Instant) : Bool :=
  payload.text.any fun text =>
    let pieces := paragraphs (Numeral.strip text)
    payload.summaryFormat = some dailySummaryFormat &&
      payload.localDate = some (date (policy.localTime now)) &&
      payload.timezone = some policy.timezone && pieces.length = 5 &&
      pieces.all fun piece => Numeral.strip piece ≠ [] && '\n' ∉ piece

/-! ## The repository's transactions -/

def staleClaim : Instant := 2 * minute
def safeRetry : Instant := 23 * 60 * minute

/-- An interrupted send too old for the provider's idempotency window. -/
def OutboxRow.interrupted (row : OutboxRow) (now : Instant) : Prop :=
  row.status = .sending ∧
    (row.claimedAt = none ∨ (∃ claimed ∈ row.claimedAt, claimed < now - safeRetry) ∨
      row.createdAt < now - safeRetry)

instance (row : OutboxRow) (now : Instant) : Decidable (row.interrupted now) :=
  inferInstanceAs (Decidable (_ ∧ (_ ∨ (∃ claimed ∈ row.claimedAt, _) ∨ _)))

def OutboxRow.claimable (row : OutboxRow) (now : Instant) : Prop :=
  row.status = .pending ∨ row.status = .failed ∨
    row.status = .sending ∧ (∃ claimed ∈ row.claimedAt, claimed ≤ now - staleClaim) ∧
      now - safeRetry ≤ row.createdAt

instance (row : OutboxRow) (now : Instant) : Decidable (row.claimable now) :=
  inferInstanceAs (Decidable (_ ∨ _ ∨ _ ∧ (∃ claimed ∈ row.claimedAt, _) ∧ _))

def only (id : Option String) (row : OutboxRow) : Prop := ∀ notificationId ∈ id, row.notificationId = notificationId

instance (id : Option String) (row : OutboxRow) : Decidable (only id row) :=
  inferInstanceAs (Decidable (∀ notificationId ∈ id, _))

def reviewInterrupted (box : Outbox) (now : Instant) (id : Option String) : Outbox :=
  box.mapValues fun row =>
    if row.interrupted now ∧ only id row then { row with status := .needsReview } else row

/-- The oldest row that may be claimed and that no other transaction has locked. -/
def claimCandidate (box : Outbox) (now : Instant) (id : Option String) (locked : List String) :
    Option OutboxRow :=
  ((box.values.filter fun row =>
    row.claimable now ∧ only id row ∧ row.notificationId ∉ locked).insertionSort
      fun a b => a.createdAt ≤ b.createdAt).head?

def claimNext (box : Outbox) (now : Instant) (id : Option String) (locked : List String) :
    Outbox × Option OutboxMessage :=
  let box := reviewInterrupted box now id
  match claimCandidate box now id locked with
  | none => (box, none)
  | some row =>
    (box.modify row.notificationId fun row =>
        { row with status := .sending, attempts := row.attempts + 1, claimedAt := some now },
      some ⟨row.notificationId, row.payload, row.attempts + 1⟩)

def markSent (box : Outbox) (id providerMessageId : String) (now : Instant) : Outbox :=
  box.modify id fun row =>
    { row with status := .sent, providerMessageId := some providerMessageId, sentAt := some now }

def markFailed (box : Outbox) (id : String) : Outbox :=
  box.modify id fun row => { row with status := .failed }

def markReviewRequired (box : Outbox) (id : String) : Outbox :=
  box.modify id fun row => { row with status := .needsReview }

/-- Accepted by no provider, and waiting. -/
def OutboxRow.unsent (row : OutboxRow) : Prop :=
  (row.status = .pending ∨ row.status = .failed) ∧ row.providerMessageId = none ∧ row.sentAt = none

instance (row : OutboxRow) : Decidable row.unsent :=
  inferInstanceAs (Decidable ((_ ∨ _) ∧ _ ∧ _))

/-- At most a hundred rows at a time, the oldest first. -/
def suppressNonDaily (box : Outbox) (keep : Option String) (locked : List String) : Outbox :=
  let chosen := ((box.values.filter fun row => row.unsent ∧ row.notificationId ∉ locked ∧
    ∀ notificationId ∈ keep, row.notificationId ≠ notificationId).insertionSort
      fun a b => a.createdAt ≤ b.createdAt).take 100
  box.mapValues fun row =>
    if row.notificationId ∈ chosen.map (·.notificationId) then { row with status := .suppressed }
    else row

def enqueue (box : Outbox) (id : String) (payload : Payload) (createdAt : Instant) : Outbox :=
  box.setDefault id { notificationId := id, payload, createdAt }

def refreshUnattemptedDaily (box : Outbox) (id : String) (payload : Payload) : Outbox :=
  box.modify id fun row =>
    if row.attempts = 0 ∧ row.unsent ∧ row.payload.summaryFormat ≠ some dailySummaryFormat then
      { row with payload, status := .pending }
    else row

/-! ## Dispatchers -/

/-- Where a dispatcher stands between two transactions, or before its call to the provider. -/
inductive Task where
  | suppressing (now : Instant)
  | claiming (now : Instant) (eligible : Option String)
  | reviewing (id : String)
  | sending (message : OutboxMessage)
  | failing (id : String)
  | accepted (id providerMessageId : String)
  deriving DecidableEq, Repr

structure Dispatcher where
  policy : Option DailyEmailPolicy
  task : Task

inductive Delivery where
  | accepted (providerMessageId : String)
  | failed (outcomeUnknown : Bool)
  deriving DecidableEq, Repr

structure Outside where
  now : Instant
  locked : List String
  delivery : Delivery

def transact (box : Outbox) (policy : Option DailyEmailPolicy) (outside : Outside) :
    Task → Outbox × Option Task
  | .suppressing now =>
    match policy with
    | none => (box, some (.claiming now none))
    | some policy =>
      (suppressNonDaily box (if policy.enabled then some (policy.currentId now) else none)
          outside.locked,
        (policy.eligibleId now).map fun id => .claiming now (some id))
  | .claiming now eligible =>
    let (box, message) := claimNext box now eligible outside.locked
    (box, message.map fun message =>
      if policy.any fun policy => !policy.validatesPayload message.payload now then
        .reviewing message.notificationId
      else .sending message)
  | .reviewing id => (markReviewRequired box id, none)
  | .sending message =>
    (box, match outside.delivery with
      | .accepted providerMessageId => some (.accepted message.notificationId providerMessageId)
      | .failed outcomeUnknown =>
        if outcomeUnknown then none else some (.failing message.notificationId))
  | .failing id => (markFailed box id, none)
  | .accepted id providerMessageId => (markSent box id providerMessageId outside.now, none)

/-- What else writes the outbox. -/
inductive Change where
  | enqueue (id : String) (payload : Payload) (createdAt : Instant)
  | refresh (id : String) (payload : Payload)
  | suppress (keep : Option String) (locked : List String)

def dispatchers : Program Outbox Dispatcher Outside Change where
  starts d := match d.task with
    | .suppressing _ => true
    | _ => false
  act outside box d :=
    let next := transact box d.policy outside d.task
    (next.1, next.2.map fun task => ⟨d.policy, task⟩)
  env
    | .enqueue id payload createdAt, box => enqueue box id payload createdAt
    | .refresh id payload, box => refreshUnattemptedDaily box id payload
    | .suppress keep locked, box => suppressNonDaily box keep locked

end TradeAgent.Notification
