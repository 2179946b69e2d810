import TradeAgent.Domain
import TradeAgent.Library.Dict

/-! The shadow recorder: market events are offered to a bounded queue, one task writes them in
batches with an audit row each, and what does not fit is counted and announced. A move is what
happens between two suspension points. -/
namespace TradeAgent.Shadow

structure MarketQuote where
  symbol : String
  timestamp : Instant
  bidPrice : ℚ
  askPrice : ℚ
  bidSize : ℚ
  askSize : ℚ
  bidExchange : String := ""
  askExchange : String := ""
  bidPriceNonneg : 0 ≤ bidPrice
  askPriceNonneg : 0 ≤ askPrice
  bidSizeNonneg : 0 ≤ bidSize
  askSizeNonneg : 0 ≤ askSize
  uncrossed : 0 < bidPrice → 0 < askPrice → bidPrice ≤ askPrice

structure MarketTrade where
  symbol : String
  timestamp : Instant
  price : ℚ
  size : ℚ
  exchange : String := ""
  tradeId : String
  conditions : List String := []
  tape : Option String := none
  pricePositive : 0 < price
  sizePositive : 0 < size

inductive StreamEvent where
  | bar (bar : MarketBar)
  | quote (quote : MarketQuote)
  | trade (trade : MarketTrade)

def StreamEvent.timestamp : StreamEvent → Instant
  | .bar b => b.timestamp
  | .quote q => q.timestamp
  | .trade t => t.timestamp

structure ReceivedStreamEvent where
  event : StreamEvent
  receivedAt : Instant

/-- A stored market row: every feed is `iex` and every bar `1Min`. -/
structure Stored (α : Type) where
  event : α
  receivedAt : Instant
  processedAt : Instant

structure BatchWriteResult where
  inserted : ℕ
  duplicates : ℕ
  deriving DecidableEq, Repr

/-- A run of drops, from the first one not yet announced. -/
structure Overflow where
  droppedEvents : ℕ
  firstReceivedAt : Instant
  firstEventAt : Instant
  lastReceivedAt : Instant
  lastEventAt : Instant
  deriving DecidableEq, Repr

structure BatchAudit where
  received : ℕ
  result : BatchWriteResult
  firstEventAt : Instant
  lastEventAt : Instant
  firstReceivedAt : Instant
  lastReceivedAt : Instant
  processingStartedAt : Instant
  instanceId : Option String
  deriving DecidableEq, Repr

/-- What a row of the event log says. Notices of other tasks carry no count of dropped events. -/
inductive EventPayload where
  | overflow (overflow : Overflow)
  | batch (audit : BatchAudit)
  | status (fields : List (String × String))
  deriving DecidableEq, Repr

def EventPayload.droppedEvents : EventPayload → ℕ
  | .overflow o => o.droppedEvents
  | .batch _ | .status _ => 0

structure EventRow where
  eventId : String
  eventType : String
  occurredAt : Instant
  recordedAt : Instant
  traceId : String
  payload : EventPayload
  deriving DecidableEq, Repr

structure Database where
  marketBars : Dict (String × String × Instant) (Stored MarketBar)
  marketQuotes : Dict (String × Instant × ℚ × ℚ × ℚ × ℚ) (Stored MarketQuote)
  marketTrades : Dict (String × String × String × String × Instant) (Stored MarketTrade)
  events : Dict String EventRow
  reportingMetadata : Dict String (String × EventPayload)

/-- How many market rows there are. -/
def Database.marketRows (db : Database) : ℕ :=
  db.marketBars.entries.length + db.marketQuotes.entries.length + db.marketTrades.entries.length

def EventPayload.isBatch : EventPayload → Bool
  | .batch _ => true
  | .overflow _ | .status _ => false

/-- How many batches have an audit row. -/
def Database.audited (db : Database) : ℕ := db.events.entries.countP fun e => e.2.payload.isBatch

/-- The drops that stored gap notices announce. -/
def Database.announced (db : Database) : ℕ :=
  (db.events.entries.map fun e => e.2.payload.droppedEvents).sum

inductive WriteFault where
  | sqlAlchemy | key
  deriving DecidableEq, Repr

section persist

-- `numeric` is what a numeric column keeps of an amount.
variable (numeric : ℚ → ℚ)

def barRow (processedAt : Instant) (receipt : ReceivedStreamEvent) :
    Option ((String × String × Instant) × Stored MarketBar) :=
  match receipt.event with
  | .bar bar =>
    some ((bar.symbol, "1Min", bar.timestamp), ⟨bar, receipt.receivedAt, processedAt⟩)
  | _ => none

def quoteRow (processedAt : Instant) (receipt : ReceivedStreamEvent) :
    Option ((String × Instant × ℚ × ℚ × ℚ × ℚ) × Stored MarketQuote) :=
  match receipt.event with
  | .quote quote =>
    some ((quote.symbol, quote.timestamp, numeric quote.bidPrice, numeric quote.askPrice,
      numeric quote.bidSize, numeric quote.askSize), ⟨quote, receipt.receivedAt, processedAt⟩)
  | _ => none

def tradeRow (processedAt : Instant) (receipt : ReceivedStreamEvent) :
    Option ((String × String × String × String × Instant) × Stored MarketTrade) :=
  match receipt.event with
  | .trade trade =>
    some ((trade.symbol, "iex", trade.tradeId, trade.exchange, trade.timestamp),
      ⟨trade, receipt.receivedAt, processedAt⟩)
  | _ => none

/-- The market rows go in first; those that conflict with a stored row do nothing. -/
def insertMarket (processedAt : Instant) (receipts : List ReceivedStreamEvent) (db : Database) :
    Database × ℕ :=
  let bars := db.marketBars.fill (receipts.filterMap (barRow processedAt))
  let quotes := db.marketQuotes.fill (receipts.filterMap (quoteRow numeric processedAt))
  let trades := db.marketTrades.fill (receipts.filterMap (tradeRow processedAt))
  ({ db with marketBars := bars.1, marketQuotes := quotes.1, marketTrades := trades.1 },
    bars.2.length + quotes.2.length + trades.2.length)

def batchRow (batchId : String) (processedAt : Instant) (instanceId : Option String)
    (result : BatchWriteResult) : List ReceivedStreamEvent → List EventRow
  | [] => []
  | first :: rest => [{
      eventId := batchId
      eventType := "shadow_recorder_batch"
      occurredAt := processedAt
      recordedAt := processedAt
      traceId := "shadow-batch:" ++ batchId
      payload := .batch {
        received := rest.length + 1
        result
        firstEventAt := (rest.map fun r => r.event.timestamp).foldl min first.event.timestamp
        lastEventAt := (rest.map fun r => r.event.timestamp).foldl max first.event.timestamp
        firstReceivedAt := first.receivedAt
        lastReceivedAt := ((first :: rest).getLast (by simp)).receivedAt
        processingStartedAt := processedAt
        instanceId } }]

/-- The audit rows, the first of each identity; the rows created get their reporting row. -/
def insertAudit (audit : List EventRow) (db : Database) : Database :=
  let auditById := (Dict.empty.fill (audit.map fun row => (row.eventId, row))).1
  let events := db.events.fill auditById.entries
  let projected := events.2.filterMap fun id =>
    (auditById.get? id).map fun row => (id, row.eventType, row.payload)
  { db with events := events.1, reportingMetadata := (db.reportingMetadata.fill projected).1 }

/-- One transaction: what it leaves when it commits. -/
def persistShadowBatch (receipts : List ReceivedStreamEvent) (notices : List EventRow)
    (batchId : String) (processedAt : Instant) (instanceId : Option String) (db : Database) :
    Except WriteFault (Database × BatchWriteResult) :=
  match db.events.get? batchId with
  | some committed =>
    match committed.payload with
    | .batch audit => .ok (db, audit.result)
    | _ => .error .key
  | none =>
    let (db, inserted) := insertMarket numeric processedAt receipts db
    let result : BatchWriteResult := ⟨inserted, receipts.length - inserted⟩
    .ok (insertAudit (notices ++ batchRow batchId processedAt instanceId result receipts) db, result)

end persist

/-! ## The recorder -/

structure Settings where
  queueCapacity : ℕ := 20000
  batchSize : ℕ := 500
  retryAttempts : ℕ := 8
  capacityPositive : 0 < queueCapacity := by decide
  batchPositive : 0 < batchSize := by decide
  attemptsPositive : 0 < retryAttempts := by decide

structure Batch where
  receipts : List ReceivedStreamEvent
  notices : List EventRow
  batchId : String

/-- Where `run` is suspended: before its next look at the queue, in the thread that writes, with
that thread's result, between two attempts, or in the callback after a commit. -/
inductive RunStage where
  | looping
  | writing (batch : Batch) (attempt : ℕ)
  | written (batch : Batch) (attempt : ℕ) (outcome : Except WriteFault BatchWriteResult)
  | sleeping (batch : Batch) (attempt : ℕ)
  | committed
  | ended
  | failed (batch : Batch) (fault : WriteFault)

/-- The recorder and its database. Two fields are history: `landed` is what the first commit of
the batch in hand counted, known to nobody while its acknowledgement is lost, and `counted` lists
the batches with receipts as the recorder counted them. -/
structure Recorder where
  database : Database
  queue : List ReceivedStreamEvent := []
  notices : List EventRow := []
  overflow : Option Overflow := none
  received : ℕ := 0
  committed : ℕ := 0
  inserted : ℕ := 0
  duplicates : ℕ := 0
  dropped : ℕ := 0
  gaps : ℕ := 0
  noticeOverflow : ℕ := 0
  inFlight : ℕ := 0
  persistenceError : Option WriteFault := none
  stop : Bool := false
  stage : RunStage := .looping
  identities : ℕ := 0
  landed : Option BatchWriteResult := none
  counted : List (String × BatchWriteResult) := []

/-- How a transaction ends: with its commit, with a commit whose acknowledgement is lost, or
rolled back. -/
inductive Commit where
  | acknowledged | lost | rolledBack
  deriving DecidableEq, Repr

inductive RecorderMove where
  | offer (receipt : ReceivedStreamEvent)
  | notice (eventType : String) (fields : List (String × String)) (now : Instant)
  | streamStatus (fields : List (String × String)) (gap : Bool) (now : Instant)
  | stop
  | run (now : Instant)
  | transact (commit : Commit) (processedAt : Instant)
  | resume

section recorder

variable (numeric : ℚ → ℚ) (settings : Settings) (instanceId : Option String) (uuid : ℕ → String)

def Recorder.offer (receipt : ReceivedStreamEvent) (s : Recorder) : Recorder :=
  let s := { s with received := s.received + 1 }
  if settings.queueCapacity ≤ s.queue.length then
    let first : Overflow := s.overflow.getD
      ⟨0, receipt.receivedAt, receipt.event.timestamp, receipt.receivedAt, receipt.event.timestamp⟩
    { s with
      dropped := s.dropped + 1
      gaps := if s.overflow.isNone then s.gaps + 1 else s.gaps
      overflow := some { first with
        droppedEvents := first.droppedEvents + 1
        lastReceivedAt := receipt.receivedAt
        lastEventAt := receipt.event.timestamp } }
  else { s with queue := s.queue ++ [receipt] }

def noticeRow (eventId eventType : String) (payload : EventPayload) (now : Instant) : EventRow where
  eventId
  eventType
  occurredAt := now
  recordedAt := now
  traceId := "shadow-status:" ++ eventId
  payload

def Recorder.notice (eventType : String) (payload : EventPayload) (now : Instant) (s : Recorder) :
    Recorder :=
  if 256 ≤ s.notices.length then { s with noticeOverflow := s.noticeOverflow + 1 }
  else { s with
    notices := s.notices ++ [noticeRow (uuid s.identities) eventType payload now]
    identities := s.identities + 1 }

def Recorder.streamStatus (fields : List (String × String)) (gap : Bool) (now : Instant)
    (s : Recorder) : Recorder :=
  Recorder.notice uuid "shadow_stream_status" (.status fields) now
    { s with gaps := if gap then s.gaps + 1 else s.gaps }

/-- The overflow so far becomes a notice of its own. -/
def Recorder.announce (now : Instant) (s : Recorder) : Recorder :=
  match s.overflow with
  | none => s
  | some overflow =>
    { Recorder.notice uuid "shadow_recorder_gap" (.overflow overflow) now s with overflow := none }

/-- A batch is taken from the queue together with the notices. -/
def Recorder.begin_ (now : Instant) (s : Recorder) : Recorder :=
  let receipts := s.queue.take settings.batchSize
  let early := s.notices
  let s := Recorder.announce uuid now
    { s with queue := s.queue.drop settings.batchSize, notices := [] }
  { s with
    notices := []
    inFlight := receipts.length
    identities := s.identities + 1
    stage := .writing ⟨receipts, early ++ s.notices, uuid s.identities⟩ 0
    landed := none }

def Recorder.run (now : Instant) (s : Recorder) : Recorder :=
  match s.stage with
  | .looping | .committed =>
    if s.queue.isEmpty ∧ s.notices.isEmpty ∧ s.overflow.isNone then
      { s with stage := if s.stop then .ended else .looping }
    else Recorder.begin_ settings uuid now s
  | .sleeping batch attempt => { s with stage := .writing batch attempt }
  | _ => s

def Recorder.transact (commit : Commit) (processedAt : Instant) (s : Recorder) : Recorder :=
  match s.stage with
  | .writing batch attempt =>
    match persistShadowBatch numeric batch.receipts batch.notices batch.batchId processedAt
        instanceId s.database with
    | .error fault => { s with stage := .written batch attempt (.error fault) }
    | .ok (database, result) =>
      match commit with
      | .rolledBack => { s with stage := .written batch attempt (.error .sqlAlchemy) }
      | .acknowledged => { s with
          database
          landed := s.landed.or (some result)
          stage := .written batch attempt (.ok result) }
      | .lost => { s with
          database
          landed := s.landed.or (some result)
          stage := .written batch attempt (.error .sqlAlchemy) }
  | _ => s

def Recorder.resume (s : Recorder) : Recorder :=
  match s.stage with
  | .written batch attempt (.error .sqlAlchemy) =>
    let s := { s with persistenceError := some .sqlAlchemy }
    if attempt + 1 = settings.retryAttempts then { s with stage := .failed batch .sqlAlchemy }
    else { s with stage := .sleeping batch (attempt + 1) }
  | .written batch _ (.error .key) => { s with stage := .failed batch .key }
  | .written batch _ (.ok result) => { s with
      persistenceError := none
      committed := s.committed + batch.receipts.length
      inserted := s.inserted + result.inserted
      duplicates := s.duplicates + result.duplicates
      inFlight := 0
      landed := none
      counted := if batch.receipts.isEmpty then s.counted
        else s.counted ++ [(batch.batchId, result)]
      stage := .committed }
  | _ => s

def Recorder.step (s : Recorder) : RecorderMove → Recorder
  | .offer receipt => s.offer settings receipt
  | .notice eventType fields now => s.notice uuid eventType (.status fields) now
  | .streamStatus fields gap now => s.streamStatus uuid fields gap now
  | .stop => { s with stop := true }
  | .run now => s.run settings uuid now
  | .transact commit processedAt => s.transact numeric instanceId commit processedAt
  | .resume => s.resume settings

end recorder

end TradeAgent.Shadow
