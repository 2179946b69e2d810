import TradeAgent.Library.Dict
import TradeAgent.ScalpRefresh

/-! The account's activities as the scalp engine reads them from the broker. A sweep pages through one
window of time at a time. It saves the window before it asks for a page, stores each page in one
transaction and then saves how far it came, so that it goes on in the middle of a window after a crash. -/
namespace TradeAgent.Scalp

/-- A JSON amount, as far as it is a finite decimal. -/
inductive Amount where
  | finite (value : ℚ)
  | unreadable
  deriving DecidableEq

/-- An activity as the broker sends it. -/
structure RawActivity where
  id : String
  activityType : ActivityKind
  transactionTime : Option Stamp := none
  createdAt : Option Stamp := none
  /-- Days since the epoch. -/
  date : Option ℤ := none
  orderId : Option String := none
  qty : Option Amount := none
  netAmount : Option Amount := none
  status : Option String := none
  currency : Option String := none
  symbol : Option String := none
  side : Option Side := none
  deriving DecidableEq

inductive TimePrecision where
  | timestamp | date
  deriving DecidableEq, Repr

inductive AttributionBasis where
  | brokerOrderId | uniqueCompleteActivityWindow | unattributedOrAmbiguous | invalidFeeEvidence
  | invalidActivityIdentity
  deriving DecidableEq, Repr

def AttributionBasis.text : AttributionBasis → String
  | .brokerOrderId => "broker_order_id"
  | .uniqueCompleteActivityWindow => "unique_complete_activity_window"
  | .unattributedOrAmbiguous => "unattributed_or_ambiguous"
  | .invalidFeeEvidence => "invalid_fee_evidence"
  | .invalidActivityIdentity => "invalid_activity_identity"

structure Attribution where
  cycleId : Option String
  basis : Option AttributionBasis
  attributedOrderId : Option String
  deriving DecidableEq

/-- A row of the activities, stored under its activity key. -/
structure StoredActivity where
  activityId : String
  kind : ActivityKind
  symbol : Option (List Char)
  brokerOrderId : Option String
  side : Option Side
  occurredAt : Instant
  timePrecision : TimePrecision
  effectiveDate : ℤ
  attribution : Attribution
  quantity : ℚ
  netAmount : ℚ
  payload : RawActivity
  payloadHash : String
  receivedAt : Instant
  deriving DecidableEq

/-- What is known of the owned order that an activity names. -/
structure OrderLink where
  cycleId : String
  side : Side
  symbol : List Char

inductive SyncError where
  | naiveStamp | amount | timestampRequired | futureActivity | invalidPage | tokenRepeated | cursorStuck | lease
  deriving DecidableEq, Repr

def SyncError.text : SyncError → String
  | .naiveStamp => "broker timestamp must be aware"
  | .amount => "non-finite broker amount"
  | .timestampRequired => "fill timestamps and non-trade activity dates are required"
  | .futureActivity => "future broker activity"
  | .invalidPage => "invalid incremental activity page"
  | .tokenRepeated => "activity pagination did not advance"
  | .cursorStuck => "broker activity cursor did not advance"
  | .lease => "current fresh global event-worker lease required"

/-- The two digests of an activity: of its account and id, and of its canonical body. -/
structure ActivityHashing where
  key : String → String
  body : RawActivity → String

section page

structure Page where
  activities : List RawActivity
  nextPageToken : Option String
  complete : Bool

/-- A page of the broker's listing, from the rows it answers with. -/
def accountActivityPage (pageSize : ℕ) (pageToken : Option String) (payload : List RawActivity) :
    Except SyncError Page :=
  if payload.any fun row => row.id = "" then .error .invalidPage
  else
    let nextToken := if payload.length = pageSize then payload.getLast?.map RawActivity.id else none
    if nextToken ≠ none ∧ nextToken = pageToken then .error .tokenRepeated
    else .ok { activities := payload, nextPageToken := nextToken, complete := nextToken = none }

end page

section storing

def number : Option Amount → Except SyncError ℚ
  | none => .ok 0
  | some (.finite value) => .ok value
  | some .unreadable => .error .amount

/-- The time of an activity; a date stands for its first instant. -/
def occurredAt (raw : RawActivity) : Except SyncError (Instant × TimePrecision) :=
  match raw.transactionTime.or raw.createdAt, raw.date with
  | some (.aware at_), _ => .ok (at_, .timestamp)
  | some (.naive _), _ => .error .naiveStamp
  | none, some date =>
    if raw.activityType = .fill then .error .timestampRequired else .ok (date * day, .date)
  | none, none => .error .timestampRequired

/-- A fee that is no evidence of what an order was charged. -/
def invalidFee (raw : RawActivity) (order : Option OrderLink) (qty cash : ℚ) : Bool :=
  raw.activityType.isFee && (decide (0 < qty) || decide (0 < cash) || decide (qty ≠ 0 ∧ cash ≠ 0) ||
    decide (raw.status ≠ some "executed") || decide (raw.currency ≠ some "USD") || raw.netAmount.isNone ||
    (decide (qty ≠ 0) && (raw.symbol.isNone || (order.any fun link =>
      decide (raw.symbol.map symbolKey ≠ some link.symbol)))) ||
    (decide (qty = 0 ∧ cash = 0) && raw.qty.isNone))

/-- The owned order an activity names, if it is one. -/
def linkedOrder (links : String → Option OrderLink) (raw : RawActivity) : Option OrderLink :=
  match raw.orderId with
  | some id => if id = "" then none else links id
  | none => none

/-- To which cycle an activity is attributed. One without an order keeps what was inferred of it, as
long as its body stays the same. -/
def attributionOf (current : Option StoredActivity) (bodyHash : String) (order : Option OrderLink) (raw : RawActivity)
    (qty cash : ℚ) : Attribution :=
  let named : Attribution := match order with
    | some link => ⟨some link.cycleId, some .brokerOrderId, none⟩
    | none => ⟨none, none, none⟩
  let kept := match current with
    | some row => if raw.orderId.all (· = "") ∧ row.payloadHash = bodyHash then row.attribution else named
    | none => named
  let fee := if invalidFee raw order qty cash then
      { kept with cycleId := none, basis := some .invalidFeeEvidence }
    else kept
  if order.any fun link => raw.side.any (· ≠ link.side) then
    { fee with cycleId := none, basis := some .invalidActivityIdentity }
  else fee

/-- The row an activity is stored as. -/
def activityRow (hashing : ActivityHashing) (links : String → Option OrderLink) (clock : Instant)
    (current : Option StoredActivity) (raw : RawActivity) : Except SyncError StoredActivity := do
  let (at_, precision) ← occurredAt raw
  if clock < at_ then throw .futureActivity
  let order := linkedOrder links raw
  let qty ← number raw.qty
  let cash ← number raw.netAmount
  return {
    activityId := raw.id
    kind := raw.activityType
    symbol := raw.symbol.map symbolKey
    brokerOrderId := raw.orderId
    side := raw.side.or (order.map OrderLink.side)
    occurredAt := at_
    timePrecision := precision
    effectiveDate := raw.date.getD (TradeAgent.date at_)
    attribution := attributionOf current (hashing.body raw) order raw qty cash
    quantity := qty
    netAmount := cash
    payload := raw
    payloadHash := hashing.body raw
    receivedAt := clock }

/-- One activity is stored unless it is stored already, with this body and for this cycle. -/
def storeActivity (hashing : ActivityHashing) (links : String → Option OrderLink) (clock : Instant)
    (table : Dict String StoredActivity) (raw : RawActivity) : Except SyncError (Dict String StoredActivity) := do
  let key := hashing.key raw.id
  let current := table.get? key
  let values ← activityRow hashing links clock current raw
  match current with
  | none => return table.set key values
  | some row =>
    if row.payloadHash ≠ hashing.body raw ∨ row.attribution.cycleId ≠ values.attribution.cycleId then
      return table.set key values
    else return table

/-- A page is stored as a whole or not at all. -/
def storePage (hashing : ActivityHashing) (links : String → Option OrderLink) (clock : Instant)
    (table : Dict String StoredActivity) (rows : List RawActivity) : Except SyncError (Dict String StoredActivity) :=
  rows.foldlM (storeActivity hashing links clock) table

end storing

section sweeps

/-- All activities are read, and the fees once more over the last days. -/
inductive Sweep where
  | activity | fee
  deriving DecidableEq, Repr

/-- How far a sweep looks back behind its watermark. -/
def Sweep.overlap : Sweep → Instant
  | .activity => 2 * minute
  | .fee => 2 * day

/-- A window that is being paged, and the last row paged of it. -/
structure ActivityWindow where
  after : Instant
  until_ : Instant
  token : Option String := none
  deriving DecidableEq

/-- The cursor of one sweep. -/
structure SweepCursor where
  watermark : Option Instant := none
  window : Option ActivityWindow := none
  initialComplete : Bool := false

/-- What is stored of an account's activities. -/
structure ActivityState where
  activity : SweepCursor
  fee : SweepCursor
  coverageStartedAt : Option Instant
  table : Dict String StoredActivity

def ActivityState.cursor (s : ActivityState) : Sweep → SweepCursor
  | .activity => s.activity
  | .fee => s.fee

def ActivityState.setCursor (s : ActivityState) (cursor : SweepCursor) : Sweep → ActivityState
  | .activity => { s with activity := cursor }
  | .fee => { s with fee := cursor }

/-- The ownership baseline sets the activity watermark. -/
def baseline (after : Instant) : ActivityState where
  activity := { watermark := some after }
  fee := {}
  coverageStartedAt := none
  table := .empty

/-- A window is opened where none is open; the fee sweep starts from the activity watermark. -/
def openWindow (s : ActivityState) (sweep : Sweep) (now : Instant) : ActivityState :=
  let cursor := s.cursor sweep
  match cursor.window, cursor.watermark.or s.activity.watermark with
  | none, some watermark =>
    s.setCursor { cursor with window := some { after := watermark - sweep.overlap, until_ := now } } sweep
  | _, _ => s

/-- A complete window moves the watermark; the first one of the activities starts the coverage. -/
def closeWindow (s : ActivityState) (sweep : Sweep) (window : ActivityWindow) : ActivityState :=
  let closed := s.setCursor
    { watermark := some window.until_, window := none, initialComplete := true } sweep
  match sweep with
  | .activity => { closed with coverageStartedAt := some (s.coverageStartedAt.getD window.after) }
  | .fee => closed

def saveToken (s : ActivityState) (sweep : Sweep) (window : ActivityWindow) (token : Option String) : ActivityState :=
  s.setCursor { s.cursor sweep with window := some { window with token := token } } sweep

/-- What one turn of the paging loop meets: the activities that the broker exposes by then, in its order,
and its answer to the request for a window; the clock and the owned orders when the page is stored;
and whether each of the two transactions commits. A process that raises or dies commits no further one. -/
structure Attempt where
  exposed : List String
  answer : ActivityWindow → Option Page
  clock : Instant
  links : String → Option OrderLink
  stored : Bool
  saved : Bool

inductive Turn where
  | goesOn | complete | ended
  deriving DecidableEq

/-- The rows once the page is stored, if its transaction commits. -/
def keepPage (hashing : ActivityHashing) (attempt : Attempt) (s : ActivityState) (page : Page) :
    Option (Dict String StoredActivity) :=
  match storePage hashing attempt.links attempt.clock s.table page.activities with
  | .ok table => if attempt.stored then some table else none
  | .error _ => none

/-- One turn of the loop: a page is asked for and stored, then the cursor is saved. -/
def syncPage (hashing : ActivityHashing) (sweep : Sweep) (attempt : Attempt) (s : ActivityState) :
    ActivityState × Turn :=
  match (s.cursor sweep).window with
  | none => (s, .ended)
  | some window =>
    match attempt.answer window with
    | none => (s, .ended)
    | some page =>
      match keepPage hashing attempt s page with
      | none => (s, .ended)
      | some table =>
        let s := { s with table }
        if ¬page.complete ∧ (page.nextPageToken = none ∨ page.nextPageToken = window.token) then (s, .ended)
        else if ¬attempt.saved then (s, .ended)
        else if page.complete then (closeWindow s sweep window, .complete)
        else (saveToken s sweep window page.nextPageToken, .goesOn)

/-- The paging loop; without a further attempt the process has died. -/
def syncPages (hashing : ActivityHashing) (sweep : Sweep) : ℕ → List Attempt → ActivityState → ActivityState × Bool
  | 0, _, s => (s, true)
  | _, [], s => (s, false)
  | pages + 1, attempt :: rest, s =>
    match syncPage hashing sweep attempt s with
    | (s, .goesOn) => syncPages hashing sweep pages rest s
    | (s, .complete) => (s, true)
    | (s, .ended) => (s, false)

/-- An inferred attribution changes only a crypto fee without an order, and nothing else of it. -/
def infer (table : Dict String StoredActivity) (inferred : String × Attribution) : Dict String StoredActivity :=
  table.modify inferred.1 fun row =>
    if row.kind = .cfee ∧ row.brokerOrderId = none ∧
        (row.attribution.basis = none ∨ row.attribution.basis = some .uniqueCompleteActivityWindow) then
      { row with attribution := inferred.2 }
    else row

/-- One call: the window, the pages, and once the windows are complete what is inferred of fees. -/
structure SyncCall where
  sweep : Sweep
  now : Instant
  pages : ℕ
  attempts : List Attempt
  inferred : List (String × Attribution)

def syncActivities (hashing : ActivityHashing) (call : SyncCall) (s : ActivityState) : ActivityState :=
  let (s, done) := syncPages hashing call.sweep call.pages call.attempts (openWindow s call.sweep call.now)
  if done ∧ s.activity.initialComplete ∧ s.activity.window = none then
    { s with table := call.inferred.foldl infer s.table }
  else s

end sweeps

end TradeAgent.Scalp
