import TradeAgent.EvidenceJournal

/-! The durable writer of a capture run: submitters put batches of evidence into a bounded queue
and one task packs consecutive batches of one kind into chunks for the journal. A move is what
one task does between two of its awaits. -/
namespace TradeAgent.Confirmation

def frameLimit : ℕ := 256 * 1024
def queueCapacity : ℕ := 128

/-- Evidence rows as their models dump them. -/
structure Submission (fl : Floats) where
  kind : String
  records : List (Payload fl)

structure Chunk (fl : Floats) where
  kind : String
  key : String
  records : List (Payload fl)

section dumps

variable {fl : Floats}

def recordsDump (records : List (Payload fl)) : Json fl.Carrier :=
  .array (records.map fun record => .object record.val)

def Submission.dump (submission : Submission fl) : Json fl.Carrier :=
  .object [("kind", .string submission.kind), ("records", recordsDump submission.records)]

theorem recordsDump_distinct (records : List (Payload fl)) : (recordsDump records).Distinct := by
  show Json.DistinctItems _
  induction records with
  | nil => trivial
  | cons record rest ih => exact ⟨record.property, ih⟩

theorem Submission.dump_distinct (submission : Submission fl) : submission.dump.Distinct :=
  ⟨by simp, trivial, recordsDump_distinct submission.records, trivial⟩

/-- What `append` is given to store. -/
def Chunk.payload (chunk : Chunk fl) : Payload fl :=
  ⟨[("records", recordsDump chunk.records)], by simp, recordsDump_distinct chunk.records, trivial⟩

/-- The bytes of a value's canonical text. -/
def encodedSize (value : Json fl.Carrier) : ℕ :=
  match canonical fl value with
  | .ok text => text.toUTF8.size
  | .error _ => 0

end dumps

/-- Where the writer task waits: for a submission to start a chunk with, for one to add to the
chunk, or for the append of the chunk. -/
inductive Stage (fl : Floats) where
  | taking
  | packing (submission : Submission fl) (rows : List (Payload fl)) (consumed size : ℕ)
  | appending (kind : String) (rows : List (Payload fl)) (consumed : ℕ)
  | stopped
  | failed (fault : JournalFault)

def Stage.ended {fl : Floats} : Stage fl → Bool
  | .stopped | .failed _ => true
  | _ => false

inductive FlushStage where
  | joining
  | joined (settled : ℕ)
  | returned (settled : ℕ)
  | sealed (settled : ℕ)
  | raised
  deriving DecidableEq, Repr

/-- How many submissions had been accepted when the join completed. -/
def FlushStage.settled : FlushStage → Option ℕ
  | .joined n | .returned n | .sealed n => some n
  | .joining | .raised => none

/-- A call of `flush`, on its own or as the first half of `close`. -/
structure Flush where
  closing : Bool
  before : ℕ
  stage : FlushStage
  deriving DecidableEq, Repr

/-- The writer. `accepted`, `reserved`, `done` and `released` are its history: the submissions the
queue took, the slots held by submitters that have not submitted yet, the tasks marked done and
the slots given back for them. -/
structure Writer (fl : Floats) where
  queue : List (Option (Submission fl)) := []
  unfinished : ℕ := 0
  slots : ℕ := queueCapacity
  carry : Option (Submission fl) := none
  stage : Stage fl := .taking
  nextChunk : ℕ := 1
  chunks : List (Chunk fl) := []
  flushes : List Flush := []
  closing : Bool := false
  accepted : List (Submission fl) := []
  reserved : ℕ := 0
  done : ℕ := 0
  released : ℕ := 0

inductive WriterMove (fl : Floats) where
  | reserve
  | submitReserved (submission : Submission fl)
  | take
  | follow
  | timeout
  | append (outcome : Option JournalFault)
  | flush (closing : Bool)
  | lapse (i : ℕ)
  | resume (i : ℕ)
  | putStop (i : ℕ)

section writer

variable {fl : Floats}

def Writer.reserve (s : Writer fl) : Writer fl :=
  if s.stage.ended ∨ s.slots = 0 then s
  else { s with slots := s.slots - 1, reserved := s.reserved + 1 }

def Writer.submitReserved (submission : Submission fl) (s : Writer fl) : Writer fl :=
  if s.reserved = 0 then s
  else if frameLimit * 2 < encodedSize submission.dump then
    { s with reserved := s.reserved - 1, slots := s.slots + 1 }
  else if s.queue.length = queueCapacity then { s with reserved := s.reserved - 1 }
  else { s with
    reserved := s.reserved - 1
    queue := s.queue ++ [some submission]
    unfinished := s.unfinished + 1
    accepted := s.accepted ++ [submission] }

/-- Start a chunk with its first submission. -/
def Writer.pack (submission : Submission fl) (s : Writer fl) : Writer fl :=
  { s with
    carry := none
    stage := .packing submission submission.records 1 (encodedSize (recordsDump submission.records)) }

def Flush.settle (accepted : ℕ) (f : Flush) : Flush :=
  match f.stage with
  | .joining => { f with stage := .joined accepted }
  | _ => f

/-- Tasks marked done; the last one wakes whoever joins the queue. -/
def Writer.taskDone (count : ℕ) (s : Writer fl) : Writer fl :=
  { s with
    unfinished := s.unfinished - count
    flushes := if s.unfinished - count = 0 then s.flushes.map (Flush.settle s.accepted.length)
      else s.flushes }

def Writer.take (s : Writer fl) : Writer fl :=
  match s.stage with
  | .taking =>
    match s.carry with
    | some submission => s.pack submission
    | none =>
      match s.queue with
      | [] => s
      | some submission :: rest => Writer.pack submission { s with queue := rest }
      | none :: rest => Writer.taskDone 1 { s with queue := rest, stage := .stopped }
  | _ => s

def Writer.follow (s : Writer fl) : Writer fl :=
  match s.stage with
  | .packing submission rows consumed size =>
    if size < frameLimit ∧ consumed < 64 then
      match s.queue with
      | [] => s
      | none :: rest =>
        Writer.taskDone 1 { s with
          queue := rest
          carry := none
          stage := .failed (.runtime "writer stop before explicit flush") }
      | some following :: rest =>
        if following.kind ≠ submission.kind then
          { s with
            queue := rest
            carry := some following
            stage := .appending submission.kind rows consumed }
        else { s with
          queue := rest
          stage := .packing submission (rows ++ following.records) (consumed + 1)
            (size + encodedSize following.dump) }
    else s
  | _ => s

/-- The loop that packs ends: on its deadline, on its size or on its count. -/
def Writer.timeout (s : Writer fl) : Writer fl :=
  match s.stage with
  | .packing submission rows consumed _ =>
    { s with stage := .appending submission.kind rows consumed }
  | _ => s

def Writer.append (outcome : Option JournalFault) (s : Writer fl) : Writer fl :=
  match s.stage with
  | .appending kind rows consumed =>
    match outcome with
    | some fault => { s with stage := .failed fault }
    | none =>
      Writer.taskDone consumed { s with
        chunks := s.chunks ++ [⟨kind, "chunk:" ++ toString s.nextChunk, rows⟩]
        nextChunk := s.nextChunk + 1
        stage := .taking
        slots := s.slots + consumed
        done := s.done + consumed
        released := s.released + consumed }
  | _ => s

/-- `flush` is called and its join begins. -/
def Writer.flush (closing : Bool) (s : Writer fl) : Writer fl :=
  { s with
    closing := s.closing || closing
    flushes := s.flushes ++ [⟨closing, s.accepted.length,
      if s.unfinished = 0 then .joined s.accepted.length else .joining⟩] }

def Flush.lapse (f : Flush) : Flush :=
  match f.stage with
  | .joining => { f with stage := .raised }
  | _ => f

/-- `flush` goes on after its wait: it raises when the writer task has ended. -/
def Flush.resume (ended : Bool) (f : Flush) : Flush :=
  match f.stage with
  | .joined settled => { f with stage := if ended then .raised else .returned settled }
  | .joining => if ended then { f with stage := .raised } else f
  | _ => f

/-- The second half of `close`. -/
def Writer.putStop (i : ℕ) (s : Writer fl) : Writer fl :=
  match s.flushes[i]? with
  | some ⟨true, before, .returned settled⟩ =>
    if s.queue.length < queueCapacity then
      { s with
        queue := s.queue ++ [none]
        unfinished := s.unfinished + 1
        flushes := s.flushes.set i ⟨true, before, .sealed settled⟩ }
    else s
  | _ => s

def Writer.step (s : Writer fl) : WriterMove fl → Writer fl
  | .reserve => s.reserve
  | .submitReserved submission => s.submitReserved submission
  | .take => s.take
  | .follow => s.follow
  | .timeout => s.timeout
  | .append outcome => s.append outcome
  | .flush closing => s.flush closing
  | .lapse i => { s with flushes := s.flushes.modify i Flush.lapse }
  | .resume i => { s with flushes := s.flushes.modify i (Flush.resume s.stage.ended) }
  | .putStop i => s.putStop i

end writer

end TradeAgent.Confirmation
