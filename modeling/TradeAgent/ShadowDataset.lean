import TradeAgent.DurableWriter
import TradeAgent.Domain

/-! The store of the observation dataset: evaluations and labels written once each, batches of
raw events linked in a hash chain, one byte budget for both, every transaction fenced by a lease
row and by the dataset's own row. -/
namespace TradeAgent.Dataset

open Confirmation (Codec canonical encodedSize)

def datasetId : String := "shadow-research-20261001-v1"
def windowStart : Instant := 1790812800 * second
def windowEnd : Instant := windowStart + 14 * day

/-- The frozen protocol; its other fields are constants below. -/
structure ShadowDatasetProtocol where
  identity : String
  frozenAt : Instant
  maximumDatasetBytes : ℕ := 3 * 1024 ^ 3
  quoteCacheCapacity : ℕ := 60000
  assumedNotionalUsd : ℚ := 41 / 4
  frozenFirst : frozenAt < windowStart

def ShadowDatasetProtocol.symbols : List String := ["BTC/USD", "ETH/USD"]
def evaluationSeconds : ℤ := 10
def horizons : List ℤ := [5, 30, 60, 300, 900]
def maximumQuoteAgeSeconds : ℤ := 2
def labelSettleSeconds : ℤ := 2

inductive DatasetFault where
  | runtime (message : String)
  | value (message : String)
  | integrity
  | noResult
  deriving DecidableEq, Repr

/-- The worker lock: who holds it and since when. -/
structure WorkerLock where
  ownerId : String
  acquiredAt : Instant
  deriving DecidableEq, Repr

inductive DatasetState where
  | warmingUp | collecting | sealed | pausedInvalid
  deriving DecidableEq, Repr

structure DatasetRow where
  protocolHash : String
  createdAt : Instant
  state : DatasetState
  sourceRoot : String
  sourceBatches : ℕ
  storedBytes : ℕ
  sealedAt : Option Instant
  deriving DecidableEq, Repr

structure MarketBatch where
  recordedAt : Instant
  eventCount : ℕ
  firstExchangeNs : ℤ
  lastExchangeNs : ℤ
  raw : ByteArray

structure SourceLink where
  recordedAt : Instant
  sequence : ℕ
  root : String
  deriving DecidableEq, Repr

/-- The columns of an evaluation; the payload is a document of type `ε`. -/
structure EvaluationValues (ε : Type) where
  evaluationId : String
  datasetId : String
  symbol : String
  evaluatedAt : Instant
  payload : ε

structure LabelValues (l : Type) where
  evaluationId : String
  horizonSeconds : ℤ
  deadlineAt : Instant
  resolvedAt : Instant
  complete : Bool
  payload : l

/-- What a collector hands to `write`. -/
inductive Row (ε l : Type) where
  | evaluation (values : EvaluationValues ε)
  | label (values : LabelValues l)

/-- The tables of one dataset. Links stay in the order they were made. -/
structure Store (ε l : Type) where
  lock : Option WorkerLock := none
  dataset : Option DatasetRow := none
  marketBatches : Dict String MarketBatch := .empty
  sourceLinks : Dict String SourceLink := .empty
  evaluations : Dict String (EvaluationValues ε) := .empty
  labels : Dict (String × ℤ) (LabelValues l) := .empty

/-- A raw event as the tape stores it. -/
structure TapeEvent (fl : Floats) where
  exchangeAtNs : ℤ
  dump : Confirmation.Payload fl

section documents

/-- How payloads and timestamps are written. -/
structure Documents (fl : Floats) (ε l : Type) where
  evaluation : ε → Confirmation.Payload fl
  label : l → Confirmation.Payload fl
  isoformat : Instant → String

variable {fl : Floats} {ε l : Type} (doc : Documents fl ε l)

def canonicalText (payload : Confirmation.Payload fl) : String :=
  match canonical fl (.object payload.val) with
  | .ok text => text
  | .error _ => ""

/-- A row as `canonical` measures it. -/
def Row.dump : Row ε l → Json fl.Carrier
  | .evaluation v => .object [("kind", .string "evaluation"), ("values", .object [
      ("evaluation_id", .string v.evaluationId), ("dataset_id", .string v.datasetId),
      ("symbol", .string v.symbol), ("evaluated_at", .string (doc.isoformat v.evaluatedAt)),
      ("payload", .object (doc.evaluation v.payload).val)])]
  | .label v => .object [("kind", .string "label"), ("values", .object [
      ("evaluation_id", .string v.evaluationId), ("horizon_seconds", .int v.horizonSeconds),
      ("deadline_at", .string (doc.isoformat v.deadlineAt)),
      ("resolved_at", .string (doc.isoformat v.resolvedAt)), ("complete", .bool v.complete),
      ("payload", .object (doc.label v.payload).val)])]

def Row.charge (row : Row ε l) : ℕ := encodedSize (row.dump doc)

end documents

section store

variable {fl : Floats} {ε l : Type} (codec : Codec) (doc : Documents fl ε l)
  (protocol : ShadowDatasetProtocol)

def lease (owner : String) (checkedAt : Instant) (s : Store ε l) : Except DatasetFault Unit :=
  match s.lock with
  | none => .error (.runtime "observation worker lease lost")
  | some lock =>
    if lock.ownerId = owner ∧ lock.acquiredAt ≤ checkedAt ∧ checkedAt ≤ lock.acquiredAt + 90 * second then
      .ok ()
    else .error (.runtime "observation worker lease lost")

def datasetRow (s : Store ε l) : Except DatasetFault DatasetRow :=
  match s.dataset with
  | some row => .ok row
  | none => .error .noResult

def conflicting : DatasetFault := .value "conflicting duplicate immutable dataset record"

def exhausted : DatasetFault :=
  .runtime "dataset storage budget exhausted; observation is incomplete"

/-- Insert an evaluation: its dataset exists and no other row has its place on the grid. -/
def insertEvaluation (v : EvaluationValues ε) (s : Store ε l) : Except DatasetFault (Store ε l) :=
  if v.datasetId ≠ datasetId ∨ ∃ other ∈ s.evaluations.values,
      other.symbol = v.symbol ∧ other.evaluatedAt = v.evaluatedAt then .error .integrity
  else .ok { s with evaluations := s.evaluations.set v.evaluationId v }

/-- Insert a label: its evaluation exists. -/
def insertLabel (v : LabelValues l) (s : Store ε l) : Except DatasetFault (Store ε l) :=
  if s.evaluations.get? v.evaluationId = none then .error .integrity
  else .ok { s with labels := s.labels.set (v.evaluationId, v.horizonSeconds) v }

/-- The canonical payload stored under a row's key. -/
def stored (row : Row ε l) (s : Store ε l) : Option String :=
  match row with
  | .evaluation v =>
    (s.evaluations.get? v.evaluationId).map fun old => canonicalText (doc.evaluation old.payload)
  | .label v =>
    (s.labels.get? (v.evaluationId, v.horizonSeconds)).map fun old =>
      canonicalText (doc.label old.payload)

def Row.text (row : Row ε l) : String :=
  match row with
  | .evaluation v => canonicalText (doc.evaluation v.payload)
  | .label v => canonicalText (doc.label v.payload)

def insertRow (row : Row ε l) (s : Store ε l) : Except DatasetFault (Store ε l) :=
  match row with
  | .evaluation v => insertEvaluation v s
  | .label v => insertLabel v s

/-- One row of a write: `storedBytes` is what the dataset row had at the start, `amount` what the
rows before charged. -/
def writeRow (storedBytes : ℕ) (row : Row ε l) (s : Store ε l) (amount : ℕ) :
    Except DatasetFault (Store ε l × ℕ) :=
  match stored doc row s with
  | some previous => if previous ≠ row.text doc then .error conflicting else .ok (s, amount)
  | none =>
    if protocol.maximumDatasetBytes < storedBytes + amount + row.charge doc then .error exhausted
    else do
      let s ← insertRow row s
      return (s, amount + row.charge doc)

def writeRows (storedBytes : ℕ) : List (Row ε l) → Store ε l → ℕ →
    Except DatasetFault (Store ε l × ℕ)
  | [], s, amount => .ok (s, amount)
  | row :: rest, s, amount => do
    let (s, amount) ← writeRow doc protocol storedBytes row s amount
    writeRows storedBytes rest s amount

def write (owner : String) (checkedAt : Instant) (rows : List (Row ε l)) (s : Store ε l) :
    Except DatasetFault (Store ε l) := do
  lease owner checkedAt s
  let row ← datasetRow s
  let (s, amount) ← writeRows doc protocol row.storedBytes rows s 0
  return { s with dataset := some { row with storedBytes := row.storedBytes + amount } }

def tapeBody (batch : List (TapeEvent fl)) : ByteArray :=
  match canonical fl (.array (batch.map fun event => .object event.dump.val)) with
  | .ok text => text.toUTF8
  | .error _ => .empty

def minimum : List ℤ → Except DatasetFault ℤ
  | [] => .error (.value "min() arg is an empty sequence")
  | first :: rest => .ok (rest.foldl min first)

def maximum : List ℤ → Except DatasetFault ℤ
  | [] => .error (.value "max() arg is an empty sequence")
  | first :: rest => .ok (rest.foldl max first)

def nextRoot (root identity : String) : String := codec.sha256 (root ++ identity).toUTF8

def persistTape (owner : String) (checkedAt : Instant) (batch : List (TapeEvent fl)) (now : Instant)
    (s : Store ε l) : Except DatasetFault (Store ε l) := do
  let body := tapeBody batch
  let identity := codec.sha256 body
  let compressed := codec.compress body
  lease owner checkedAt s
  let row ← datasetRow s
  if (s.sourceLinks.get? identity).isSome then return s
  if protocol.maximumDatasetBytes < row.storedBytes + compressed.size then
    throw (.runtime "raw dataset storage budget exhausted")
  let first ← minimum (batch.map TapeEvent.exchangeAtNs)
  let last ← maximum (batch.map TapeEvent.exchangeAtNs)
  let root := nextRoot codec row.sourceRoot identity
  -- A sequence number used twice is a violated constraint, not a row to skip.
  if ∃ link ∈ s.sourceLinks.values, link.sequence = row.sourceBatches + 1 then throw .integrity
  return { s with
    marketBatches := s.marketBatches.setDefault identity ⟨now, batch.length, first, last, compressed⟩
    sourceLinks := s.sourceLinks.set identity ⟨now, row.sourceBatches + 1, root⟩
    dataset := some { row with
      sourceRoot := root
      sourceBatches := row.sourceBatches + 1
      storedBytes := row.storedBytes + compressed.size } }

def freezeProtocol (now : Instant) (s : Store ε l) : Except DatasetFault (Store ε l) :=
  match s.dataset with
  | some row =>
    if row.protocolHash ≠ protocol.identity then
      .error (.value "cannot rewrite a frozen observation protocol")
    else .ok s
  | none =>
    if now < protocol.frozenAt then
      .error (.value "a frozen protocol cannot claim a future registration time")
    else if windowStart ≤ now then
      .error (.value "prospective window missed: cannot freeze or backdate after start")
    else .ok { s with dataset := some ⟨protocol.identity, now, .warmingUp, protocol.identity, 0, 0, none⟩ }

/-- What `update_quality` writes besides the report. -/
def updateQuality (owner : String) (checkedAt : Instant) (stopReason sealed : Bool) (now : Instant)
    (s : Store ε l) : Except DatasetFault (Store ε l) := do
  lease owner checkedAt s
  return { s with dataset := s.dataset.map fun row => { row with
    state := if stopReason then .pausedInvalid else if sealed then .sealed
      else if windowStart ≤ now then .collecting else .warmingUp
    sealedAt := if sealed then some now else none } }

/-! ## Owners -/

/-- A lock is taken when there is none, from an owner that let it go stale, or by its own owner. -/
def acquireWorkerLock (owner : String) (now staleAfter : Instant) (s : Store ε l) : Store ε l :=
  match s.lock with
  | none => { s with lock := some ⟨owner, now⟩ }
  | some lock =>
    if now ≤ lock.acquiredAt + staleAfter then s else { s with lock := some ⟨owner, now⟩ }

def refreshWorkerLock (owner : String) (now : Instant) (s : Store ε l) : Store ε l :=
  match s.lock with
  | none => s
  | some lock => if lock.ownerId = owner then { s with lock := some ⟨owner, now⟩ } else s

def releaseWorkerLock (owner : String) (s : Store ε l) : Store ε l :=
  match s.lock with
  | none => s
  | some lock => if lock.ownerId = owner then { s with lock := none } else s

/-- A call of some owner, at the reading of its clock that the lease is checked against. -/
inductive Call (fl : Floats) (ε l : Type) where
  | write (owner : String) (checkedAt : Instant) (rows : List (Row ε l))
  | persistTape (owner : String) (checkedAt : Instant) (batch : List (TapeEvent fl)) (now : Instant)

def Call.attempt (s : Store ε l) : Call fl ε l → Except DatasetFault (Store ε l)
  | .write owner checkedAt rows => Dataset.write doc protocol owner checkedAt rows s
  | .persistTape owner checkedAt batch now =>
    Dataset.persistTape codec protocol owner checkedAt batch now s

inductive Act (fl : Floats) (ε l : Type) where
  | acquire (owner : String) (now staleAfter : Instant)
  | refresh (owner : String) (now : Instant)
  | release (owner : String)
  | freeze (now : Instant)
  | quality (owner : String) (checkedAt : Instant) (stopReason sealed : Bool) (now : Instant)
  -- `committed`: the transaction commits, whether or not its acknowledgement arrives.
  | call (call : Call fl ε l) (committed : Bool)

/-- A transaction that raises leaves the tables as they were, and so does one that rolls back. -/
def settle (s : Store ε l) (committed : Bool) : Except DatasetFault (Store ε l) → Store ε l
  | .ok t => if committed then t else s
  | .error _ => s

def step (s : Store ε l) : Act fl ε l → Store ε l
  | .acquire owner now staleAfter => acquireWorkerLock owner now staleAfter s
  | .refresh owner now => refreshWorkerLock owner now s
  | .release owner => releaseWorkerLock owner s
  | .freeze now => settle s true (freezeProtocol protocol now s)
  | .quality owner checkedAt stopReason sealed now =>
    settle s true (updateQuality owner checkedAt stopReason sealed now s)
  | .call call committed => settle s committed (call.attempt codec doc protocol s)

end store

end TradeAgent.Dataset
