import TradeAgent.Library.Json
import TradeAgent.Library.Procedure

/-! The evidence journal of one confirmation study: hash-chained records appended by the holder of
a lease row, under a byte budget, and the paged reader that recomputes the chain. -/
namespace TradeAgent.Confirmation

def payloadBudget : ℕ := 3221225472
def terminalReserve : ℕ := 4 * 1024 ^ 2
def maxChunkBytes : ℕ := 4 * 1024 ^ 2

inductive JournalFault where
  | runtime (message : String)
  | value (message : String)
  | missing (key : String)
  | integrity
  deriving DecidableEq, Repr

/-- What one decompression call of bounded output leaves behind. -/
structure Inflated where
  data : ByteArray
  eof : Bool
  unusedData : ByteArray
  unconsumedTail : ByteArray

/-- The digest and the compression the journal relies on. A stream decompressed with
room to spare gives the compressed data back and ends there. -/
structure Codec where
  sha256 : ByteArray → String
  compress : ByteArray → ByteArray
  decompress : ByteArray → ℕ → Option Inflated
  lossless : ∀ data limit, data.size < limit →
    decompress (compress data) limit = some ⟨data, true, .empty, .empty⟩

section canonical

variable (fl : Floats)

/-- A value as it is after one trip through text. -/
def jsonValue (value : Json fl.Carrier) : Except JournalFault (Json fl.Carrier) :=
  match Json.read fl (Json.write fl Json.spaced value) with
  | some value => .ok value
  | none => .error (.value "json")

def canonical (value : Json fl.Carrier) : Except JournalFault String := do
  let value ← jsonValue fl value
  return String.ofList (Json.write fl Json.compact value.sorted)

/-- A JSON object as callers hold one: its keys are distinct at every depth. -/
abbrev Payload := { members : List (String × Json fl.Carrier) // (Json.object members).Distinct }

end canonical

structure ChunkHeader where
  studyId : String
  sequence : ℤ
  key : String
  kind : String
  ownerId : String
  atNs : ℤ
  previousHash : String
  payloadHash : String
  chainHash : String
  decodedBytes : ℕ
  storedBytes : ℕ
  deriving DecidableEq, Repr

/-- The header's fields without the chain hash, in the order they are declared. -/
def ChunkHeader.dump (fl : Floats) (header : ChunkHeader) : Json fl.Carrier :=
  .object [
    ("study_id", .string header.studyId),
    ("sequence", .int header.sequence),
    ("key", .string header.key),
    ("kind", .string header.kind),
    ("owner_id", .string header.ownerId),
    ("at_ns", .int header.atNs),
    ("previous_hash", .string header.previousHash),
    ("payload_hash", .string header.payloadHash),
    ("decoded_bytes", .int header.decodedBytes),
    ("stored_bytes", .int header.storedBytes)]

structure Row where
  header : ChunkHeader
  payload : ByteArray

/-- Times are microseconds of the system clock since the epoch. -/
structure Lock where
  ownerId : String
  acquiredAt : ℕ
  deriving DecidableEq, Repr

/-- The lease row of a study and its evidence rows in order of sequence. -/
structure Journal where
  lock : Option Lock
  rows : List Row

def Journal.empty : Journal := ⟨none, []⟩

/-- What an append is asked to store. -/
structure Request (fl : Floats) where
  kind : String
  key : String
  payload : Payload fl
  atNs : ℤ
  claim : Bool

def leaseMicros : ℕ := 90 * 10 ^ 6

section journal

variable (codec : Codec) (fl : Floats) (study : String)

def ChunkHeader.calculatedHash (header : ChunkHeader) : Except JournalFault String := do
  return codec.sha256 (← canonical fl (header.dump fl)).toUTF8

def decodeBlob (blob : ByteArray) (size : ℕ) :
    Except JournalFault (List (String × Json fl.Carrier)) := do
  if ¬ (0 < size ∧ size ≤ maxChunkBytes) then throw (.value "invalid evidence decoded size")
  match codec.decompress blob (size + 1) with
  | none => throw (.value "evidence compression verification failed")
  | some inflated =>
    if inflated.data.size ≠ size ∨ inflated.eof = false ∨ inflated.unusedData.size ≠ 0 ∨
        inflated.unconsumedTail.size ≠ 0 then
      throw (.value "evidence compression/size verification failed")
    -- Bytes are read as UTF-8; the journal's own are ASCII.
    match (String.fromUTF8? inflated.data).bind fun text => Json.read fl text.toList with
    | none => throw (.value "json")
    | some (.object members) => return members
    | some _ => throw (.value "evidence payload must be an object")

/-! ## The lease -/

def lease (owner : String) (now : ℕ) (s : Journal) : Except JournalFault Unit :=
  match s.lock with
  | none => .error (.runtime "confirmation_lease_lost")
  | some lock =>
    if lock.ownerId ≠ owner then .error (.runtime "confirmation_lease_lost")
    else if ¬ (lock.acquiredAt ≤ now ∧ now ≤ lock.acquiredAt + leaseMicros) then
      .error (.runtime "confirmation_lease_expired")
    else .ok ()

/-- A lock is taken when there is none, or from an owner that has let it go stale. -/
def acquireWorkerLock (owner : String) (now : ℕ) (s : Journal) : Journal :=
  match s.lock with
  | none => { s with lock := some ⟨owner, now⟩ }
  | some lock =>
    if now ≤ lock.acquiredAt + leaseMicros then s else { s with lock := some ⟨owner, now⟩ }

def releaseWorkerLock (owner : String) (s : Journal) : Journal :=
  match s.lock with
  | none => s
  | some lock => if lock.ownerId = owner then { s with lock := none } else s

def refresh (owner : String) (now : ℕ) (s : Journal) : Journal :=
  match lease owner now s with
  | .ok _ => { s with lock := some ⟨owner, now⟩ }
  | .error _ => s

/-! ## Appending -/

/-- Where the next record goes: its sequence number, the hash it chains to and the bytes
already charged. -/
def position (owner : String) (request : Request fl) (previous : Option Row) :
    Except JournalFault (ℤ × String × ℕ) :=
  match previous with
  | some prior => do
    if request.claim then throw (.runtime "single_confirmation_already_claimed_no_restart")
    let calculated ← prior.header.calculatedHash codec fl
    if prior.header.ownerId ≠ owner ∨ calculated ≠ prior.header.chainHash then
      throw (.runtime "confirmation_owner_or_chain_changed")
    if prior.header.kind = "terminal" then throw (.runtime "terminal_confirmation_is_immutable")
    if request.atNs < prior.header.atNs then throw (.value "evidence_append_clock_regression")
    return (prior.header.sequence + 1, prior.header.chainHash, prior.header.storedBytes)
  | none =>
    if request.claim then
      match Dict.find request.payload.val "protocol_hash" with
      | none => .error (.missing "protocol_hash")
      | some (.string root) => .ok (0, root, 0)
      | some _ => .error (.value "invalid protocol hash")
    else .error (.runtime "confirmation_protocol_not_claimed")

def payloadLimit (kind : String) : ℕ :=
  if kind = "terminal" ∨ kind = "report" then payloadBudget else payloadBudget - terminalReserve

/-- The record an append inserts once it has found no record of its key. -/
def newRow (owner : String) (request : Request fl) (body blob : ByteArray) (rows : List Row) :
    Except JournalFault Row := do
  let (sequence, root, charged) ← position codec fl owner request rows.getLast?
  let charge := blob.size + 512
  if payloadLimit request.kind < charged + charge then
    throw (.runtime "confirmation_payload_budget_exceeded")
  let header : ChunkHeader := {
    studyId := study
    sequence
    key := request.key
    kind := request.kind
    ownerId := owner
    atNs := request.atNs
    previousHash := root
    payloadHash := codec.sha256 blob
    chainHash := ""
    decodedBytes := body.size
    storedBytes := charged + charge }
  let chainHash ← header.calculatedHash codec fl
  if rows.any fun row => row.header.sequence = sequence then
    throw (if request.claim then .runtime "single_confirmation_already_claimed_no_restart"
      else .integrity)
  return ⟨{ header with chainHash }, blob⟩

def append (owner : String) (now : ℕ) (request : Request fl) (s : Journal) :
    Except JournalFault (ChunkHeader × Journal) := do
  let body := (← canonical fl (.object request.payload.val)).toUTF8
  if maxChunkBytes < body.size then throw (.runtime "evidence_chunk_budget_exceeded")
  let blob := codec.compress body
  lease owner now s
  match s.rows.find? fun row => row.header.key = request.key with
  | some existing =>
    if existing.header.payloadHash ≠ codec.sha256 blob ∨ existing.header.kind ≠ request.kind ∨
        existing.header.atNs ≠ request.atNs ∨ existing.header.ownerId ≠ owner then
      throw (.value "conflicting_duplicate_append_only_evidence")
    return (existing.header, s)
  | none =>
    let row ← newRow codec fl study owner request body blob s.rows
    return (row.header, { s with rows := s.rows ++ [row] })

/-! ## Runs -/

/-- The record a run starts with: the protocol and its identity, at the clock reading the claim
was checked at. -/
def claimRequest (protocol : Payload fl) (identity : String) (checked : ℕ) : Request fl where
  kind := "protocol"
  key := "protocol"
  payload := ⟨[("protocol", .object protocol.val), ("protocol_hash", .string identity)],
    by simp, protocol.property, trivial, trivial⟩
  atNs := 1000 * checked
  claim := true

/-- The transactions owners race with. A claim is an acquisition and an append; between any two
transactions its process may stop. -/
inductive Act (fl : Floats) where
  | acquire (owner : String) (now : ℕ)
  | release (owner : String)
  | refresh (owner : String) (now : ℕ)
  | claim (owner : String) (now : ℕ) (protocol : Payload fl) (identity : String) (checked : ℕ)
  | append (owner : String) (now : ℕ) (kind key : String) (payload : Payload fl) (atNs : ℤ)

/-- The append an act attempts: who asks, when and for what. -/
def Act.attempt {fl : Floats} : Act fl → Option (String × ℕ × Request fl)
  | .claim owner now protocol identity checked =>
    some (owner, now, claimRequest fl protocol identity checked)
  | .append owner now kind key payload atNs => some (owner, now, ⟨kind, key, payload, atNs, false⟩)
  | _ => none

def appended (owner : String) (now : ℕ) (request : Request fl) (s : Journal) : Journal :=
  match append codec fl study owner now request s with
  | .ok (_, s') => s'
  | .error _ => s

def act (s : Journal) : Act fl → Journal
  | .acquire owner now => acquireWorkerLock owner now s
  | .release owner => releaseWorkerLock owner s
  | .refresh owner now => refresh owner now s
  | .claim owner now protocol identity checked =>
    appended codec fl study owner now (claimRequest fl protocol identity checked) s
  | .append owner now kind key payload atNs =>
    appended codec fl study owner now ⟨kind, key, payload, atNs, false⟩ s

def runActs (acts : List (Act fl)) : Journal := acts.foldl (act codec fl study) Journal.empty

/-! ## Reading back -/

/-- What the reader carries from row to row. -/
structure Cursor where
  sequence : ℤ
  expectedRoot : Option String
  charged : ℕ
  owner : Option String
  lastAt : ℤ

def Cursor.start : Cursor := ⟨-1, none, 0, none, -1⟩

/-- Which payloads a read is to return and verify. -/
structure Selection where
  verifyPayloads : Bool
  kinds : Option (List String)

def Selection.wants (selection : Selection) (kind : String) : Bool :=
  selection.verifyPayloads || selection.kinds.all fun kinds => kinds.contains kind

def checkRow (selection : Selection) (cursor : Cursor) (row : Row) :
    Except JournalFault (Cursor × ChunkHeader × Option ByteArray) := do
  let header := row.header
  let calculated ← header.calculatedHash codec fl
  if header.sequence ≠ cursor.sequence + 1 ∨ header.studyId ≠ study ∨
      calculated ≠ header.chainHash ∨ cursor.expectedRoot.any (header.previousHash ≠ ·) ∨
      cursor.owner.any (· ≠ header.ownerId) ∨ header.atNs < cursor.lastAt ∨
      header.storedBytes ≤ cursor.charged ∨ payloadBudget < header.storedBytes then
    throw (.value "durable_evidence_hash_chain_verification_failed")
  let next : Cursor :=
    ⟨header.sequence, some header.chainHash, header.storedBytes, some header.ownerId, header.atNs⟩
  if selection.wants header.kind then
    if codec.sha256 row.payload ≠ header.payloadHash then
      throw (.value "durable_evidence_payload_hash_mismatch")
    if header.storedBytes ≠ cursor.charged + row.payload.size + 512 then
      throw (.value "durable_evidence_payload_charge_mismatch")
    return (next, header, some row.payload)
  return (next, header, none)

def checkRows (selection : Selection) (cursor : Cursor) :
    List Row → Except JournalFault (Cursor × List (ChunkHeader × Option ByteArray))
  | [] => return (cursor, [])
  | row :: rows => do
    let (cursor, header, blob) ← checkRow codec fl study selection cursor row
    let (cursor, found) ← checkRows selection cursor rows
    return (cursor, (header, blob) :: found)

def page (rows : List Row) (after last : ℤ) : List Row :=
  (rows.filter fun row => after < row.header.sequence ∧ row.header.sequence ≤ last).take 8

/-- Page after page, each from what the table holds when its query runs. A page that is not
empty moves the cursor on, so there are no more pages than sequence numbers. -/
def readPages (selection : Selection) (views : ℕ → List Row) (last : ℤ) :
    ℕ → ℕ → Cursor → Except JournalFault (List (ChunkHeader × Option ByteArray))
  | 0, _, _ => .error (.runtime "more pages than rows")
  | fuel + 1, query, cursor => do
    let headers := page (views query) cursor.sequence last
    if headers.isEmpty then
      if cursor.sequence ≠ last then throw (.value "durable_evidence_snapshot_incomplete")
      return []
    let (cursor, found) ← checkRows codec fl study selection cursor headers
    let later ← readPages selection views last fuel (query + 1) cursor
    return found ++ later

/-- The journal up to the last record the first query saw. `views` is what each query of the
read sees. -/
def blobChunks (selection : Selection) (views : ℕ → List Row) :
    Except JournalFault (List (ChunkHeader × Option ByteArray)) :=
  match (views 0).getLast? with
  | none => .ok []
  | some row =>
    readPages codec fl study selection views row.header.sequence
      (row.header.sequence.toNat + 2) 1 Cursor.start

end journal

end TradeAgent.Confirmation
