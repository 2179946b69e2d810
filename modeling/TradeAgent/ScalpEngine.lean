import TradeAgent.ScalpDispatch
import TradeAgent.ScalpRefresh

/-! One engine at a time over its database and its broker. The trading thread does one thing
at a time: what it has in hand stands between two transactions or calls and is lost in a
crash; a restart goes on over the same rows. The broker reports orders as they progress, and
what the engine hears of one is any of its reports, early, late or twice. -/
namespace TradeAgent.Scalp

/-- The reports of each order the broker was handed, latest first. -/
abbrev Broker := String → Option (List AlpacaPaperOrder)

/-- A report that takes the order further: its fills grow, and are fixed once it is final. -/
structure Progresses (history : List AlpacaPaperOrder) (order : AlpacaPaperOrder) : Prop where
  grows : ∀ p ∈ history, p.filledQuantity ≤ order.filledQuantity
  fixed : ∀ p ∈ history, p.status.final → order.filledQuantity = p.filledQuantity

instance (history : List AlpacaPaperOrder) (order : AlpacaPaperOrder) :
    Decidable (Progresses history order) :=
  decidable_of_iff ((∀ p ∈ history, p.filledQuantity ≤ order.filledQuantity) ∧
      ∀ p ∈ history, p.status.final → order.filledQuantity = p.filledQuantity)
    ⟨fun h => ⟨h.1, h.2⟩, fun h => ⟨h.grows, h.fixed⟩⟩

def Broker.reported (broker : Broker) (clientId : String) : List AlpacaPaperOrder :=
  (broker clientId).getD []

/-- What the thread has in hand: nothing, an exit before or after its refresh, or a task. -/
inductive Job where
  | idle
  | exiting (cycleId : String)
  | sizing (cycleId : String)
  | task (t : Task)

structure Engine where
  store : Store
  cycles : Dict String OwnedCycle
  broker : Broker
  job : Job

structure CryptoAsset where
  minOrderSize : ℚ
  minTradeIncrement : ℚ
  sizePositive : 0 < minOrderSize
  incrementPositive : 0 < minTradeIncrement

/-- A cycle whose first entry is about to be placed. -/
def newCycle (cycleId symbol : String) (now : Instant) : OwnedCycle where
  cycleId := cycleId
  symbol := symbol
  createdAt := now
  updatedAt := now
  state := .entryPending
  columns := ⟨0, 0, 0, 0⟩

def floorQuantity (quantity increment : ℚ) : ℚ := Rounding.quantize .floor increment quantity

def cycleOrders (s : Store) (cycleId : String) : List OwnedOrder :=
  s.orders.values.filter fun row => row.intent.cycleId = cycleId

def exitQuantity (asset : CryptoAsset) (cycle : OwnedCycle) (available unowned : ℚ) : ℚ :=
  floorQuantity (min (ledgerAmount cycle Ledger.ownedQuantity) (max 0 (available - unowned)))
    asset.minTradeIncrement

/-- The order of an exit, if it is large enough to be taken. -/
def exitReservation (asset : CryptoAsset) (cycle : OwnedCycle) (available unowned : ℚ)
    (clientId : String) : Option Reservation :=
  if large : asset.minOrderSize ≤ exitQuantity asset cycle available unowned then
    some {
      intent := ⟨clientId, cycle.cycleId, cycle.symbol.toList, .sell,
        exitQuantity asset cycle available unowned⟩
      expiresAt := none
      positive := asset.sizePositive.trans_le large }
  else none

namespace Engine

variable (e : Engine)

/-- What a refresh reads: the active cycles, those it was asked for, and their orders. -/
def reading (r : Reading) (extra : List String) : Reading :=
  { r with
    cycles := e.cycles.values.filter fun c => !c.state.closed || c.cycleId ∈ extra
    orders := cycleOrders e.store }

/-- The pass of a refresh that writes. -/
def refreshed (r : Reading) (extra : List String) (now : Instant) (found : Found) : Option Engine :=
  match project (e.reading r extra) now >>= commit (e.reading r extra) found with
  | .ok p => some { e with cycles := e.cycles.update (p.cycles.map fun c => (c.cycleId, c)) }
  | .error _ => none

/-- An exit goes ahead only for a listed cycle that asked for it, owned something and has
no unresolved order. -/
def exits (listed : OwnedCycle) : Bool :=
  listed.exitRequested && decide (0 < ledgerAmount listed Ledger.ownedQuantity) &&
    (cycleOrders e.store listed.cycleId).all fun row => row.status.final

/-- What the broker makes of a call: an order it answers with an error of the client's is
not taken; one whose answer is lost may be. -/
def called (t : Task) (reply : Reply) (taken : Bool) : Broker :=
  match t, reply with
  | .submitting clientId, .snapshot order => Function.update e.broker clientId (some [order])
  | .submitting _, .http true _ _ => e.broker
  | .submitting clientId, _ => if taken then Function.update e.broker clientId (some []) else e.broker
  | _, _ => e.broker

/-- A lookup returns one of the order's reports. -/
def answers (t : Task) (reply : Reply) : Bool :=
  match t, reply with
  | .lookingUp clientId _, .snapshot order | .inspecting clientId _, .snapshot order
  | .finding clientId, .snapshot order => order ∈ e.broker.reported clientId
  | _, _ => true

end Engine

inductive Move where
  | crash
  | lease (row : Option Lease)
  | report (order : AlpacaPaperOrder)
  | openCycle (cycleId symbol : String) (now : Instant)
  | requestExit (cycleId : String) (now : Instant)
  | enter (r : Reservation)
  | reconcile (clientId : String) (pass : Pass)
  | cancel (clientId : String) (pass : Pass)
  | deliver (d : Delivery)
  | refresh (r : Reading) (extra : List String) (now : Instant) (found : Found)
  | exit (listed : OwnedCycle)
  | size (asset : CryptoAsset) (available unowned : ℚ) (clientId : String)
  | act (ownerId : String) (outside : Outside) (taken : Bool)

namespace Engine

def initial (lease : Option Lease) : Engine := ⟨.initial lease, .empty, fun _ => none, .idle⟩

def report (e : Engine) (order : AlpacaPaperOrder) : Engine :=
  match e.broker order.clientOrderId with
  | some history =>
    if Progresses history order then
      { e with broker := Function.update e.broker order.clientOrderId (some (order :: history)) }
    else e
  | none => e

/-- An update reaches the thread between its steps, or in the middle of a refresh; the
dispatch of an entry refreshes before it claims the order. -/
def deliver (e : Engine) (d : Delivery) : Engine :=
  match e.store.orders.get? d.snapshot.clientOrderId with
  | some row =>
    if d.snapshot ∈ e.broker.reported d.snapshot.clientOrderId then
      { e with store := { e.store with
        orders := e.store.orders.set d.snapshot.clientOrderId (Scalp.deliver row d) } }
    else e
  | none => e

def after (e : Engine) (broker : Broker) (next : Store × Option Task) : Engine :=
  { e with store := next.1, broker := broker, job := (next.2.map .task).getD .idle }

/-- The thread's next transaction or call. -/
def act (e : Engine) (ownerId : String) (outside : Outside) (taken : Bool) (t : Task) : Engine :=
  if e.answers t outside.reply then
    e.after (e.called t outside.reply taken) (transact e.store ownerId outside t)
  else e

def step (e : Engine) : Move → Engine
  | .crash => { e with job := .idle }
  | .lease row => { e with store := { e.store with lease := row } }
  | .report order => e.report order
  | .openCycle cycleId symbol now =>
    match e.job with
    | .idle => { e with cycles := e.cycles.setDefault cycleId (newCycle cycleId symbol now) }
    | _ => e
  | .requestExit cycleId now =>
    match e.job with
    | .idle => { e with
        cycles := e.cycles.modify cycleId fun c => { c with exitRequested := true, updatedAt := now } }
    | _ => e
  | .enter r =>
    match e.job with
    | .idle => if r.intent.side = .buy then { e with job := .task (.reserving r) } else e
    | _ => e
  | .reconcile clientId pass =>
    match e.job with
    | .idle => { e with job := .task (.reconciling clientId pass) }
    | _ => e
  | .cancel clientId pass =>
    match e.job with
    | .idle => { e with job := .task (.cancelling clientId pass) }
    | _ => e
  | .deliver d =>
    match e.job with
    | .idle | .exiting _ | .task (.claiming _) => e.deliver d
    | _ => e
  | .refresh r extra now found =>
    match e.job with
    | .idle | .task (.claiming _) => (e.refreshed r extra now found).getD e
    | .exiting cycleId =>
      match e.refreshed r extra now found with
      | some e => { e with job := .sizing cycleId }
      | none => { e with job := .idle }
    | _ => e
  | .exit listed =>
    match e.job with
    | .idle => if e.exits listed then { e with job := .exiting listed.cycleId } else e
    | _ => e
  | .size asset available unowned clientId =>
    match e.job with
    | .sizing cycleId =>
      match (e.cycles.get? cycleId).bind (exitReservation asset · available unowned clientId) with
      | some r => { e with job := .task (.reserving r) }
      | none => { e with job := .idle }
    | _ => e
  | .act ownerId outside taken =>
    match e.job with
    | .task t => e.act ownerId outside taken t
    | _ => e

def run (e : Engine) (moves : List Move) : Engine := moves.foldl step e

end Engine

end TradeAgent.Scalp
