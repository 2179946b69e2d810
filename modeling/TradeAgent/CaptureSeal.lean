import TradeAgent.EvidenceJournal
import TradeAgent.Library.JsonRoundTrip

/-! How a capture run ends: whatever stopped it, the shutdown refreshes the lease, records the final
quality, verifies, and only then appends the terminal record. The bytes kept back for sealing are
open to terminal and report records alone. -/
namespace TradeAgent.Confirmation

open Procedure

/-! ## What a run appends -/

inductive ChunkKind where
  | health | capture | evaluation | label
  deriving DecidableEq, Repr

def ChunkKind.name : ChunkKind → String
  | .health => "health"
  | .capture => "capture"
  | .evaluation => "evaluation"
  | .label => "label"

/-- The appends of a run's own tasks before and beside its shutdown. -/
inductive Task where
  | chunk (number : ℕ) (kind : ChunkKind)
  | guardInitial
  | guardAt (at_ : ℕ)
  | guardWatch (sequence : ℕ)
  | guardPreVerification
  | qualityAt (at_ : ℕ)
  | qualityWatch (sequence : ℕ)
  | report (hour : ℕ)
  deriving DecidableEq, Repr

def Task.kind : Task → String
  | .chunk _ kind => kind.name
  | .guardInitial | .guardAt _ | .guardWatch _ | .guardPreVerification => "guard"
  | .qualityAt _ | .qualityWatch _ => "quality"
  | .report _ => "report"

def Task.key : Task → String
  | .chunk number _ => "chunk:" ++ toString number
  | .guardInitial => "guard:initial"
  | .guardAt at_ => "guard:" ++ toString at_
  | .guardWatch sequence => "guard:watch:" ++ toString sequence
  | .guardPreVerification => "guard:pre_verification"
  | .qualityAt at_ => "quality:" ++ toString at_
  | .qualityWatch sequence => "quality:watch:" ++ toString sequence
  | .report hour => "hour:" ++ toString hour

def JournalFault.text : JournalFault → String
  | .runtime message => "RuntimeError:" ++ message
  | .value message => "ValueError:" ++ message
  | .missing key => "KeyError:" ++ key
  | .integrity => "IntegrityError"

def budgetExceeded : JournalFault := .runtime "confirmation_payload_budget_exceeded"

/-- A run: its journal, the first failure noted and whether an append ran out of budget. -/
structure Capture where
  journal : Journal
  failure : Option String
  exhausted : Bool

def Capture.fail (c : Capture) (fault : JournalFault) : Capture where
  journal := c.journal
  failure := c.failure.or (some fault.text)
  exhausted := c.exhausted || fault = budgetExceeded

/-- What can happen to the journal while a run is on: its tasks append, its heartbeat refreshes
the lease, and other owners act. -/
inductive Move (fl : Floats) where
  | work (task : Task) (payload : Payload fl) (now : ℕ) (atNs : ℤ)
  | heartbeat (now : ℕ)
  | foreign (act : Act fl)

def Act.owner {fl : Floats} : Act fl → String
  | .acquire owner _ | .release owner | .refresh owner _ | .claim owner _ _ _ _
  | .append owner _ _ _ _ _ => owner

section capture

variable (codec : Codec) (fl : Floats) (study me : String)

def Task.request (task : Task) (payload : Payload fl) (atNs : ℤ) : Request fl :=
  ⟨task.kind, task.key, payload, atNs, false⟩

/-- An append of the run; a fault is noted and the run goes on to its shutdown. -/
def attempt (now : ℕ) (request : Request fl) (c : Capture) : Capture :=
  match append codec fl study me now request c.journal with
  | .ok (_, journal) => { c with journal }
  | .error fault => c.fail fault

def heartbeat (now : ℕ) (c : Capture) : Capture :=
  match lease me now c.journal with
  | .ok _ => { c with journal := refresh me now c.journal }
  | .error fault => c.fail fault

def move (c : Capture) : Move fl → Capture
  | .work task payload now atNs => attempt codec fl study me now (task.request fl payload atNs) c
  | .heartbeat now => heartbeat me now c
  | .foreign a => if a.owner = me then c else { c with journal := act codec fl study c.journal a }

def moves (run : List (Move fl)) (c : Capture) : Capture := run.foldl (move codec fl study me) c

/-- A run begins with its claim: the lock at the reading it checked, the protocol record after. -/
def begin_ (protocol : Payload fl) (identity : String) (checked now : ℕ) : Capture where
  journal := runActs codec fl study [.acquire me checked, .claim me now protocol identity checked]
  failure := none
  exhausted := false

/-! ## Shutdown -/

/-- One transaction of the shutdown: what other tasks and owners do before it, and its clocks. -/
structure Moment where
  background : List (Move fl)
  now : ℕ
  atNs : ℤ

/-- What the shutdown takes from outside the journal: the receiver's quality, the verification's
report or error, and the last guard or its error. -/
structure Closing where
  schema : String
  protocolHash : String
  refreshed : Moment fl
  quality : Payload fl
  qualityAt : Moment fl
  report : Except String (Payload fl)
  guard : Except String (Payload fl)
  guardAt : Moment fl
  terminalAt : Moment fl

variable {fl}

def Payload.put (payload : Payload fl) (key : String) (value : Json fl.Carrier)
    (distinct : value.Distinct) : Payload fl :=
  ⟨Dict.put payload.val key value, by
    refine ⟨Dict.put_distinct key value payload.property.1, ?_⟩
    refine Json.distinctMembers_iff.mpr fun m member => ?_
    rcases Dict.put_mem member with new | old
    · exact new ▸ distinct
    · exact Json.distinctMembers_iff.mp payload.property.2 m old⟩

/-- The report of a run that failed. -/
def failedReport (report : Payload fl) (reason : String) : Payload fl :=
  ((((report.put "state" (.string "failed_incomplete") trivial).put
    "decision" (.string "NO_GO") trivial).put
    "clean_integrity" (.bool false) trivial).put
    "terminal_reason" (.string reason) trivial)

/-- What stands for the report when verification itself failed. -/
def unverifiedReport (closing : Closing fl) (error : String) : Payload fl :=
  ⟨[("schema", .string closing.schema), ("protocol_hash", .string closing.protocolHash),
    ("decision", .string "NO_GO"), ("state", .string "failed_incomplete"),
    ("clean_integrity", .bool false), ("full_payload_verification", .bool false),
    ("verification_error", .string error), ("orders_submitted", .int 0),
    ("private_kraken_requests", .int 0), ("v2_ready", .bool false)],
    by simp, by simp [Json.DistinctMembers, Json.Distinct]⟩

def closingReport (failure : Option String) (report : Payload fl) : Payload fl :=
  match failure with
  | none => report
  | some reason => failedReport report reason

def terminalPayload (failure : Option String) (report : Payload fl) : Payload fl :=
  ⟨[("state", .string (if failure.isNone then "completed" else "failed_incomplete")),
    ("reason", (failure.map Json.string).getD .null),
    ("report", .object (closingReport failure report).val)],
    by simp, trivial, by cases failure <;> trivial, (closingReport failure report).property, trivial⟩

def qualityRequest (closing : Closing fl) : Request fl :=
  ⟨"quality", "quality:final", closing.quality, closing.qualityAt.atNs, false⟩

def guardRequest (payload : Payload fl) (atNs : ℤ) : Request fl :=
  ⟨"guard", "guard:final", payload, atNs, false⟩

def terminalRequest (failure : Option String) (report : Payload fl) (atNs : ℤ) : Request fl :=
  ⟨"terminal", "terminal", terminalPayload failure report, atNs, false⟩

/-- The run when its final quality is to be recorded. -/
def beforeQuality (closing : Closing fl) (c : Capture) : Capture :=
  let c := moves codec fl study me closing.refreshed.background c
  let c := { c with journal := refresh me closing.refreshed.now c.journal }
  moves codec fl study me closing.qualityAt.background c

/-- The verification: its error fails a run that had not failed. -/
def verified (closing : Closing fl) (c : Capture) : Capture × Payload fl :=
  match closing.report with
  | .ok report => (c, report)
  | .error error =>
    ({ c with failure := c.failure.or (some ("final_evidence_verification_failed:" ++ error)) },
      unverifiedReport closing error)

/-- The last guard, which only a run without failure takes. -/
def guarded (closing : Closing fl) (c : Capture) : Capture :=
  if c.failure.isSome then c
  else match closing.guard with
    | .ok payload =>
      attempt codec fl study me closing.guardAt.now (guardRequest payload closing.guardAt.atNs)
        (moves codec fl study me closing.guardAt.background c)
    | .error error => { c with failure := some error }

/-- The run when its terminal record is to be appended, and the report the record is to hold. -/
def beforeTerminal (closing : Closing fl) (c : Capture) : Capture × Payload fl :=
  let (c, report) := verified closing c
  let c := guarded codec study me closing c
  (moves codec fl study me closing.terminalAt.background c, report)

/-- The shutdown: the run as it leaves it, and whether it got to the end. A refresh or a final
quality that fails ends it there. -/
def shutdown (closing : Closing fl) (c : Capture) : Capture × Bool :=
  let fenced := moves codec fl study me closing.refreshed.background c
  match lease me closing.refreshed.now fenced.journal with
  | .error fault => (fenced.fail fault, false)
  | .ok _ =>
    let c := beforeQuality codec study me closing c
    match append codec fl study me closing.qualityAt.now (qualityRequest closing) c.journal with
    | .error fault => (c.fail fault, false)
    | .ok (_, journal) =>
      let (c, report) := beforeTerminal codec study me closing { c with journal }
      match append codec fl study me closing.terminalAt.now
          (terminalRequest c.failure report closing.terminalAt.atNs) c.journal with
      | .error fault => (c.fail fault, false)
      | .ok (_, journal) => ({ c with journal }, true)

end capture

end TradeAgent.Confirmation
