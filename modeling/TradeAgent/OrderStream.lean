import TradeAgent.Library.Json
import TradeAgent.Library.Machine
import TradeAgent.ScalpOrder

/-! The reader of the paper order stream and the runtime that drains it. The reader connects, authenticates, listens
and backs off on a task of its own; a move is what runs under the lock, so that the two may interleave. -/
namespace TradeAgent.OrderStream

open Scalp (BrokerStatus)

/-- An order as the wire has it. -/
structure WireOrder where
  id : String
  clientOrderId : String
  symbol : String
  side : Side
  status : BrokerStatus
  quantity : Option ℚ
  notional : Option ℚ
  filledQuantity : ℚ
  filledAveragePrice : Option ℚ
  createdAt : Instant
  updatedAt : Option Instant
  sized : ∀ q ∈ quantity, 0 < q
  worth : ∀ n ∈ notional, 0 < n
  filled : 0 ≤ filledQuantity
  averaged : ∀ price ∈ filledAveragePrice, 0 < price
  priced : 0 < filledQuantity → filledAveragePrice ≠ none

def fills : List String := ["fill", "partial_fill"]

def dated : List String := ["fill", "partial_fill", "canceled", "expired", "replaced", "rejected"]

structure WireUpdate where
  event : String
  order : WireOrder
  timestamp : Option Instant
  executionId : Option String
  eventId : Option String
  quantity : Option ℚ
  price : Option ℚ
  positionQuantity : Option ℚ
  traded : event ∈ fills → quantity ≠ none ∧ price ≠ none ∧ positionQuantity ≠ none
  timed : event ∈ dated → timestamp ≠ none

/-- An update with its place in the stream: a hint to reconcile, not a quantity to act on. -/
structure PaperTradeUpdate where
  event : String
  timestamp : Option Instant
  receivedAt : Instant
  sequence : ℕ
  connectionId : ℕ
  orderId : String
  clientOrderId : String
  symbol : String
  side : Side
  status : BrokerStatus
  quantity : Option ℚ
  notional : Option ℚ
  filledQuantity : ℚ
  filledAveragePrice : Option ℚ
  orderCreatedAt : Instant
  orderUpdatedAt : Option Instant
  executionId : Option String
  eventId : Option String
  fillQuantity : Option ℚ
  fillPrice : Option ℚ
  positionQuantity : Option ℚ
  deriving DecidableEq

inductive Failure where
  | invalidJson | invalidEnvelope | serverError | authenticationRejected | invalidAuthorization
  | subscriptionRejected | unexpectedStream | invalidTradeUpdate | handshakeTimeout | transportLost | readerFailed
  deriving DecidableEq, Repr

def Failure.text : Failure → String
  | .invalidJson => "invalid_json"
  | .invalidEnvelope => "invalid_envelope"
  | .serverError => "server_error"
  | .authenticationRejected => "authentication_rejected"
  | .invalidAuthorization => "invalid_authorization"
  | .subscriptionRejected => "subscription_rejected"
  | .unexpectedStream => "unexpected_stream"
  | .invalidTradeUpdate => "invalid_trade_update"
  | .handshakeTimeout => "handshake_timeout"
  | .transportLost => "transport_lost"
  | .readerFailed => "reader_failed"

/-- The reader does not try again. -/
def Failure.terminal : Failure → Bool
  | .authenticationRejected | .subscriptionRejected | .readerFailed => true
  | _ => false

def Failure.invalid : Failure → Bool
  | .invalidJson | .invalidEnvelope | .invalidAuthorization | .subscriptionRejected | .unexpectedStream
  | .invalidTradeUpdate => true
  | _ => false

inductive Gap where
  | failure (kind : Failure)
  | queueOverflow
  | readerRestarted
  deriving DecidableEq, Repr

def Gap.text : Gap → String
  | .failure kind => kind.text
  | .queueOverflow => "queue_overflow"
  | .readerRestarted => "reader_restarted"

inductive Phase where
  | stopped | connecting | authenticating | subscribing | subscribed | backoff | failed
  deriving DecidableEq, Repr

structure Health where
  running : Bool := false
  connected : Bool := false
  authenticated : Bool := false
  subscribed : Bool := false
  state : Phase := .stopped
  connectionAttempts : ℕ := 0
  connections : ℕ := 0
  reconnects : ℕ := 0
  disconnects : ℕ := 0
  messagesReceived : ℕ := 0
  receivedUpdates : ℕ := 0
  droppedUpdates : ℕ := 0
  invalidMessages : ℕ := 0
  errorCount : ℕ := 0
  gapCount : ℕ := 0
  retryDelay : ℚ := 0
  startedAt : Option Instant := none
  stoppedAt : Option Instant := none
  connectedAt : Option Instant := none
  authenticatedAt : Option Instant := none
  subscribedAt : Option Instant := none
  lastMessageAt : Option Instant := none
  lastUpdateAt : Option Instant := none
  lastErrorAt : Option Instant := none
  lastError : Option Gap := none
  lastGapAt : Option Instant := none
  lastGapReason : Option Gap := none
  gapStartedAt : Option Instant := none

inductive SettingsFault where
  | host | credentials | capacity | timing | ordering
  deriving DecidableEq, Repr

def SettingsFault.text : SettingsFault → String
  | .host => "only the Alpaca PAPER host is permitted"
  | .credentials => "PAPER stream credentials must be nonempty"
  | .capacity => "queue_capacity must be a positive integer"
  | .timing => "stream timeouts and backoff must be finite and positive"
  | .ordering => "maximum backoff must be at least the initial backoff"

structure Settings where
  capacity : ℕ
  initialDelay : ℚ
  maxDelay : ℚ
  roomy : 0 < capacity
  positive : 0 < initialDelay
  ordered : initialDelay ≤ maxDelay

def paperUrl : String := "https://paper-api.alpaca.markets"

/-- A key and a secret are given without the blanks around them. -/
def Settings.of (url key secret : String) (capacity : ℤ) (initial max handshake : ℚ) : Except SettingsFault Settings :=
  if url ≠ paperUrl then .error .host
  else if key = "" ∨ secret = "" then .error .credentials
  else if roomy : capacity < 1 then .error .capacity
  else if positive : initial ≤ 0 ∨ max ≤ 0 ∨ handshake ≤ 0 then .error .timing
  else if ordered : max < initial then .error .ordering
  else .ok ⟨capacity.toNat, initial, max, by omega, not_le.mp (not_or.mp positive).1, not_lt.mp ordered⟩

/-! ## Messages -/

variable {F : Type}

structure Message (F : Type) where
  stream : String
  data : List (String × Json F)

def isText (text : String) : Option (Json F) → Bool
  | some (.string s) => s = text
  | _ => false

def isTradeUpdates : Option (Json F) → Bool
  | some (.array [.string s]) => s = "trade_updates"
  | _ => false

/-- A payload, as it was read: none is not JSON. -/
def decode (payload : Option (Json F)) : Except Failure (Message F) :=
  match payload with
  | none => .error .invalidJson
  | some (.object members) =>
    match members.lookup "data" with
    | some (.object data) =>
      if isText "error" (members.lookup "action") then .error .serverError
      else if isText "authorization" (members.lookup "stream") ∧ isText "unauthorized" (data.lookup "status") then
        .error .authenticationRejected
      else
        match members.lookup "stream" with
        | some (.string stream) => .ok ⟨stream, data⟩
        | _ => .error .invalidEnvelope
    | _ => .error .invalidEnvelope
  | some _ => .error .invalidEnvelope

def checkAuthorization (message : Message F) : Except Failure Unit :=
  if message.stream = "authorization" ∧ isText "authorized" (message.data.lookup "status") ∧
      isText "authenticate" (message.data.lookup "action") then .ok ()
  else .error .invalidAuthorization

def checkSubscription (message : Message F) : Except Failure Unit :=
  if message.stream = "listening" ∧ isTradeUpdates (message.data.lookup "streams") then .ok ()
  else .error .subscriptionRejected

/-! ## The reader -/

inductive Stage where
  | authenticating | subscribing | listening
  deriving DecidableEq, Repr

/-- Where the reader's task stands: what it waits for, or what it does next under the lock. -/
inductive Reader (F : Type) where
  | idle
  | starting
  | connecting (delay : ℚ)
  | reading (stage : Stage) (delay : ℚ)
  | handling (stage : Stage) (delay : ℚ) (payload : Option (Json F)) (receivedAt : Instant)
  | closing (failure : Failure) (delay : ℚ) (listened : Bool)
  | backing (delay : ℚ)
  | pausing (delay : ℚ)
  | finished
  | leaving

/-- The stage of a connection that is up. -/
def Reader.stage? : Reader F → Option Stage
  | .reading stage _ | .handling stage _ _ _ => some stage
  | _ => none

def Reader.active : Reader F → Bool
  | .idle => false
  | _ => true

structure Stream (F : Type) where
  queue : List PaperTradeUpdate := []
  health : Health := {}
  reader : Reader F := .idle

/-- What came about, in the order in which it did. -/
inductive Entry where
  | started
  | attempted
  | opened
  | authorized
  | subscribed
  | left
  | received (update : PaperTradeUpdate)
  | lost (update : PaperTradeUpdate)
  | gap (reason : Gap)
  | failed (failure : Failure)
  | renewed
  | paused (delay : ℚ)
  | ended
  | consumed (update : PaperTradeUpdate)
  | abandoned (update : PaperTradeUpdate)
  | reconciled
  deriving DecidableEq

namespace Health

def recordGap (h : Health) (reason : Gap) (now : Instant) : Health :=
  { h with
    errorCount := h.errorCount + 1
    gapCount := h.gapCount + 1
    lastErrorAt := some now
    lastGapAt := some now
    lastError := some reason
    lastGapReason := some reason }

def clearConnection (h : Health) : Health := { h with connected := false, authenticated := false, subscribed := false }

def start (h : Health) (now : Instant) : Health :=
  let h := { h with running := true, startedAt := some now, stoppedAt := none, state := .connecting }
  let h := if h.connections = 0 then h else h.recordGap .readerRestarted now
  { h with gapStartedAt := h.gapStartedAt.or (some now) }

def attempt (h : Health) : Health :=
  { h with
    connectionAttempts := h.connectionAttempts + 1
    reconnects := h.connectionAttempts
    state := .connecting
    retryDelay := 0 }

def opened (h : Health) (now : Instant) : Health :=
  { h with connections := h.connections + 1, connected := true, connectedAt := some now, state := .authenticating }

def received (h : Health) (now : Instant) : Health :=
  { h with messagesReceived := h.messagesReceived + 1, lastMessageAt := some now }

def authorized (h : Health) (now : Instant) : Health :=
  { h with authenticated := true, authenticatedAt := some now, state := .subscribing }

def subscribe (h : Health) (now : Instant) : Health :=
  { h with subscribed := true, subscribedAt := some now, gapStartedAt := none, state := .subscribed }

def fail (h : Health) (failure : Failure) (wasConnected : Bool) (now : Instant) : Health :=
  let h := { h with
    disconnects := h.disconnects + wasConnected.toNat
    invalidMessages := h.invalidMessages + failure.invalid.toNat }
  let h := h.recordGap (.failure failure) now
  { h with
    state := if failure.terminal then .failed else .backoff
    gapStartedAt := h.gapStartedAt.or (some now) }

def finish (h : Health) (now : Instant) : Health :=
  let h := { h with running := false }.clearConnection
  { h with
    retryDelay := 0
    stoppedAt := some now
    gapStartedAt := h.gapStartedAt.or (some now)
    state := if h.state = .failed then .failed else .stopped }

end Health

namespace Stream

variable (settings : Settings)

def updateOf (h : Health) (data : WireUpdate) (receivedAt : Instant) : PaperTradeUpdate where
  event := data.event
  timestamp := data.timestamp
  receivedAt
  sequence := h.receivedUpdates
  connectionId := h.connections
  orderId := data.order.id
  clientOrderId := data.order.clientOrderId
  symbol := data.order.symbol
  side := data.order.side
  status := data.order.status
  quantity := data.order.quantity
  notional := data.order.notional
  filledQuantity := data.order.filledQuantity
  filledAveragePrice := data.order.filledAveragePrice
  orderCreatedAt := data.order.createdAt
  orderUpdatedAt := data.order.updatedAt
  executionId := data.executionId
  eventId := data.eventId
  fillQuantity := data.quantity
  fillPrice := data.price
  positionQuantity := data.positionQuantity

/-- A full queue loses its oldest update. -/
def enqueue (s : Stream F) (data : WireUpdate) (receivedAt now : Instant) : Stream F × List Entry :=
  let health := { s.health with receivedUpdates := s.health.receivedUpdates + 1 }
  let update := updateOf health data receivedAt
  if s.queue.length = settings.capacity then
    let health := { health with droppedUpdates := health.droppedUpdates + 1 }.recordGap .queueOverflow now
    ({ s with queue := s.queue.tail ++ [update], health := { health with lastUpdateAt := some receivedAt } },
      .received update :: (s.queue.head?.toList.map .lost ++ [.gap .queueOverflow]))
  else
    ({ s with queue := s.queue ++ [update], health := { health with lastUpdateAt := some receivedAt } },
      [.received update])

/-- The connection breaks: its flags are down before its socket is closed. -/
def break_ (s : Stream F) (failure : Failure) (delay : ℚ) (listened : Bool) : Stream F × List Entry :=
  ({ s with health := s.health.clearConnection, reader := .closing failure delay listened }, [.left])

/-- A failed attempt, or the end of a connection once its socket is closed. -/
def fail (s : Stream F) (failure : Failure) (wasConnected : Bool) (delay : ℚ) (now : Instant) :
    Stream F × List Entry :=
  ({ s with
      health := s.health.fail failure wasConnected now
      reader := if failure.terminal then .finished else .backing delay },
    [.failed failure, .gap (.failure failure)])

-- What a trade update's data say, if they are valid.
variable (wire : List (String × Json F) → Option WireUpdate)

/-- One message in a stage: what it brings, or how it fails. -/
def handle (s : Stream F) (stage : Stage) (delay : ℚ) (payload : Option (Json F)) (receivedAt now : Instant) :
    Stream F × List Entry :=
  match decode payload with
  | .error failure => s.break_ failure delay (stage = .listening)
  | .ok message =>
    match stage with
    | .authenticating =>
      match checkAuthorization message with
      | .error failure => s.break_ failure delay false
      | .ok () =>
        ({ s with health := s.health.authorized now, reader := .reading .subscribing delay }, [.authorized])
    | .subscribing =>
      match checkSubscription message with
      | .error failure => s.break_ failure delay false
      | .ok () =>
        ({ s with health := s.health.subscribe now, reader := .reading .listening delay }, [.subscribed])
    | .listening =>
      if message.stream = "listening" then
        match checkSubscription message with
        | .error failure => s.break_ failure delay true
        | .ok () => ({ s with reader := .reading .listening delay }, [])
      else if message.stream ≠ "trade_updates" then s.break_ .unexpectedStream delay true
      else
        match wire message.data with
        | none => s.break_ .invalidTradeUpdate delay true
        | some data => enqueue settings { s with reader := .reading .listening delay } data receivedAt now

end Stream

/-- A move of the reader's task, of what it waits for, or of the service around it. -/
inductive Move (F : Type) where
  | start (now : Instant)
  | attempt
  | opened (now : Instant)
  | refused (unexpected : Bool) (now : Instant)
  | receive (payload : Option (Json F)) (now : Instant)
  | handle (now : Instant)
  | timeout
  | lose (unexpected : Bool)
  | closed (lasted : Bool) (now : Instant)
  | back
  | stop
  | ended (now : Instant)

def trouble (unexpected : Bool) : Failure := if unexpected then .readerFailed else .transportLost

namespace Stream

variable (settings : Settings) (wire : List (String × Json F) → Option WireUpdate)

/-- A move that the reader is not ready for does nothing. -/
def step (s : Stream F) (move : Move F) : Stream F × List Entry :=
  match move, s.reader with
  | .start now, .idle =>
    ({ s with health := s.health.start now, reader := .starting },
      .started :: if s.health.connections = 0 then [] else [.gap .readerRestarted])
  | .attempt, .starting =>
    ({ s with health := s.health.attempt, reader := .connecting settings.initialDelay }, [.attempted])
  | .attempt, .pausing delay =>
    ({ s with health := s.health.attempt, reader := .connecting (min (delay * 2) settings.maxDelay) }, [.attempted])
  | .opened now, .connecting delay =>
    ({ s with health := s.health.opened now, reader := .reading .authenticating delay }, [.opened])
  | .refused unexpected now, .connecting delay => s.fail (trouble unexpected) false delay now
  | .receive payload now, .reading stage delay =>
    ({ s with health := s.health.received now, reader := .handling stage delay payload now }, [])
  | .handle now, .handling stage delay payload receivedAt => s.handle settings wire stage delay payload receivedAt now
  | .timeout, .reading .authenticating delay | .timeout, .reading .subscribing delay =>
    s.break_ .handshakeTimeout delay false
  | .lose unexpected, .reading stage delay => s.break_ (trouble unexpected) delay (stage = .listening)
  | .closed lasted now, .closing failure delay listened =>
    if failure.terminal = false ∧ listened ∧ lasted then
      let (s, entries) := s.fail failure true settings.initialDelay now
      (s, entries ++ [.renewed])
    else s.fail failure true delay now
  | .back, .backing delay =>
    ({ s with health := { s.health with retryDelay := delay }, reader := .pausing delay }, [.paused delay])
  | .stop, .starting | .stop, .pausing _ => ({ s with reader := .leaving }, [])
  | .stop, .connecting _ | .stop, .closing .. =>
    ({ s with health := s.health.clearConnection, reader := .leaving }, [])
  | .stop, .reading .. => ({ s with health := s.health.clearConnection, reader := .leaving }, [.left])
  | .ended now, .leaving | .ended now, .finished =>
    ({ s with health := s.health.finish now, reader := .idle }, [.ended])
  | _, _ => (s, [])

end Stream

/-! ## The runtime -/

/-- A tick of the runtime: it takes what is queued, looks at the gaps, and then deals with both. -/
inductive Consumer where
  | resting
  | drained (batch : List PaperTradeUpdate)
  | observed (batch : List PaperTradeUpdate) (gaps : ℕ)

structure System (F : Type) where
  stream : Stream F := {}
  consumer : Consumer := .resting
  lastStreamGaps : ℕ := 0
  log : List Entry := []

inductive Act (F : Type) where
  | reader (move : Move F)
  | drain
  | observe
  | consume (failsAt : Option ℕ) (reconciles : Bool)

namespace System

def tell (s : System F) (entries : List Entry) : System F := { s with log := s.log ++ entries }

/-- The batch update by update, and a reconciliation where the gaps are not those known. An update that raises ends
the tick, and so does a reconciliation that does. -/
def consume (s : System F) (batch : List PaperTradeUpdate) (gaps : ℕ) (failsAt : Option ℕ) (reconciles : Bool) :
    System F :=
  let s := { s with consumer := .resting }
  match failsAt.filter (· < batch.length) with
  | some index => s.tell ((batch.take index).map .consumed ++ (batch.drop index).map .abandoned)
  | none =>
    if gaps ≠ s.lastStreamGaps ∧ reconciles then
      { s with lastStreamGaps := gaps }.tell (batch.map Entry.consumed ++ [Entry.reconciled])
    else s.tell (batch.map .consumed)

variable (settings : Settings) (wire : List (String × Json F) → Option WireUpdate)

def step (s : System F) (act : Act F) : System F :=
  match act, s.consumer with
  | .reader move, _ =>
    let (stream, entries) := s.stream.step settings wire move
    { s with stream }.tell entries
  | .drain, .resting =>
    { s with stream := { s.stream with queue := [] }, consumer := .drained s.stream.queue }
  | .observe, .drained batch => { s with consumer := .observed batch s.stream.health.gapCount }
  | .consume failsAt reconciles, .observed batch gaps => s.consume batch gaps failsAt reconciles
  | _, _ => s

end System

/-! ## What a move does -/

variable {settings : Settings} {wire : List (String × Json F) → Option WireUpdate}

/-- Every way in which a move goes. -/
inductive Stepped (settings : Settings) (s : Stream F) : Stream F → List Entry → Prop where
  | still : Stepped settings s s []
  | start (now) (ready : s.reader = .idle) :
      Stepped settings s { s with health := s.health.start now, reader := .starting }
        (.started :: if s.health.connections = 0 then [] else [.gap .readerRestarted])
  | first (ready : s.reader = .starting) :
      Stepped settings s { s with health := s.health.attempt, reader := .connecting settings.initialDelay } [.attempted]
  | again (delay) (ready : s.reader = .pausing delay) :
      Stepped settings s
        { s with health := s.health.attempt, reader := .connecting (min (delay * 2) settings.maxDelay) } [.attempted]
  | opened (now delay) (ready : s.reader = .connecting delay) :
      Stepped settings s { s with health := s.health.opened now, reader := .reading .authenticating delay } [.opened]
  | refused (unexpected now delay) (ready : s.reader = .connecting delay) :
      Stepped settings s (s.fail (trouble unexpected) false delay now).1 (s.fail (trouble unexpected) false delay now).2
  | receive (payload now stage delay) (ready : s.reader = .reading stage delay) :
      Stepped settings s { s with health := s.health.received now, reader := .handling stage delay payload now } []
  | broke (failure stage delay)
      (ready : s.reader = .reading stage delay ∨ ∃ payload at_, s.reader = .handling stage delay payload at_) :
      Stepped settings s { s with
        health := s.health.clearConnection
        reader := .closing failure delay (decide (stage = .listening)) } [.left]
  | authorized (now delay payload at_) (ready : s.reader = .handling .authenticating delay payload at_) :
      Stepped settings s { s with health := s.health.authorized now, reader := .reading .subscribing delay }
        [.authorized]
  | subscribed (now delay payload at_) (ready : s.reader = .handling .subscribing delay payload at_) :
      Stepped settings s { s with health := s.health.subscribe now, reader := .reading .listening delay } [.subscribed]
  | heard (delay payload at_) (ready : s.reader = .handling .listening delay payload at_) :
      Stepped settings s { s with reader := .reading .listening delay } []
  | enqueued (now delay payload at_ data) (ready : s.reader = .handling .listening delay payload at_) :
      Stepped settings s
        (Stream.enqueue settings ({ s with reader := .reading .listening delay } : Stream F) data at_ now).1
        (Stream.enqueue settings ({ s with reader := .reading .listening delay } : Stream F) data at_ now).2
  | renewed (now failure delay) (ready : s.reader = .closing failure delay true)
      (retried : failure.terminal = false) :
      Stepped settings s (s.fail failure true settings.initialDelay now).1
        ((s.fail failure true settings.initialDelay now).2 ++ [.renewed])
  | closed (now failure delay listened) (ready : s.reader = .closing failure delay listened) :
      Stepped settings s (s.fail failure true delay now).1 (s.fail failure true delay now).2
  | paused (delay) (ready : s.reader = .backing delay) :
      Stepped settings s { s with health := { s.health with retryDelay := delay }, reader := .pausing delay }
        [.paused delay]
  | cancelled (ready : s.reader = .starting ∨ ∃ delay, s.reader = .pausing delay) :
      Stepped settings s { s with reader := .leaving } []
  | cut (ready : (∃ delay, s.reader = .connecting delay) ∨ ∃ failure delay listened,
        s.reader = .closing failure delay listened) :
      Stepped settings s { s with health := s.health.clearConnection, reader := .leaving } []
  | left (stage delay) (ready : s.reader = .reading stage delay) :
      Stepped settings s { s with health := s.health.clearConnection, reader := .leaving } [.left]
  | ended (now) (ready : s.reader = .leaving ∨ s.reader = .finished) :
      Stepped settings s { s with health := s.health.finish now, reader := .idle } [.ended]

theorem handle_stepped (s : Stream F) {stage : Stage} {delay : ℚ} {payload : Option (Json F)} {receivedAt : Instant}
    (ready : s.reader = .handling stage delay payload receivedAt) (now : Instant) :
    Stepped settings s (s.handle settings wire stage delay payload receivedAt now).1
      (s.handle settings wire stage delay payload receivedAt now).2 := by
  have broke : ∀ failure, Stepped settings s (s.break_ failure delay (decide (stage = .listening))).1
      (s.break_ failure delay (decide (stage = .listening))).2 :=
    fun failure => .broke failure stage delay (.inr ⟨payload, receivedAt, ready⟩)
  unfold Stream.handle
  split
  next failure _ => exact broke failure
  next message _ =>
    cases stage with
    | authenticating =>
      simp only
      split
      next failure _ => exact broke failure
      next => exact .authorized now delay payload receivedAt ready
    | subscribing =>
      simp only
      split
      next failure _ => exact broke failure
      next => exact .subscribed now delay payload receivedAt ready
    | listening =>
      simp only
      split
      next =>
        split
        next failure _ => exact broke failure
        next => exact .heard delay payload receivedAt ready
      next =>
        split
        next => exact broke .unexpectedStream
        next =>
          split
          next => exact broke .invalidTradeUpdate
          next data _ => exact .enqueued now delay payload receivedAt data ready

theorem step_stepped (s : Stream F) (move : Move F) :
    Stepped settings s (s.step settings wire move).1 (s.step settings wire move).2 := by
  unfold Stream.step
  split
  next now ready => exact .start now ready
  next ready => exact .first ready
  next delay ready => exact .again delay ready
  next now delay ready => exact .opened now delay ready
  next unexpected now delay ready => exact .refused unexpected now delay ready
  next payload now stage delay ready => exact .receive payload now stage delay ready
  next now stage delay payload receivedAt ready => exact handle_stepped s ready now
  next delay ready => exact .broke .handshakeTimeout .authenticating delay (.inl ready)
  next delay ready => exact .broke .handshakeTimeout .subscribing delay (.inl ready)
  next unexpected stage delay ready => exact .broke (trouble unexpected) stage delay (.inl ready)
  next lasted now failure delay listened ready =>
    split
    next renewed =>
      obtain ⟨retried, rfl, -⟩ := renewed
      exact .renewed now failure delay ready retried
    next => exact .closed now failure delay listened ready
  next delay ready => exact .paused delay ready
  next ready => exact .cancelled (.inl ready)
  next delay ready => exact .cancelled (.inr ⟨delay, ready⟩)
  next delay ready => exact .cut (.inl ⟨delay, ready⟩)
  next failure delay listened ready => exact .cut (.inr ⟨failure, delay, listened, ready⟩)
  next stage delay ready => exact .left stage delay ready
  next now ready => exact .ended now (.inl ready)
  next now ready => exact .ended now (.inr ready)
  next => exact .still

/-- Every way in which the two go on. -/
inductive Turned (settings : Settings) (s : System F) : System F → Prop where
  | still : Turned settings s s
  | reader {stream entries} (stepped : Stepped settings s.stream stream entries) :
      Turned settings s ({ s with stream }.tell entries)
  | drained (ready : s.consumer = .resting) :
      Turned settings s { s with stream := { s.stream with queue := [] }, consumer := .drained s.stream.queue }
  | observed (batch) (ready : s.consumer = .drained batch) :
      Turned settings s { s with consumer := .observed batch s.stream.health.gapCount }
  | raised (batch gaps index) (ready : s.consumer = .observed batch gaps) (within : index < batch.length) :
      Turned settings s ({ s with consumer := .resting }.tell
        ((batch.take index).map Entry.consumed ++ (batch.drop index).map Entry.abandoned))
  | consumed (batch gaps) (ready : s.consumer = .observed batch gaps) :
      Turned settings s ({ s with consumer := .resting }.tell (batch.map Entry.consumed))
  | reconciled (batch gaps) (ready : s.consumer = .observed batch gaps) :
      Turned settings s ({ s with consumer := .resting, lastStreamGaps := gaps }.tell
        (batch.map Entry.consumed ++ [Entry.reconciled]))

theorem step_turned (s : System F) (act : Act F) : Turned settings s (s.step settings wire act) := by
  unfold System.step
  split
  next move => exact .reader (step_stepped s.stream move)
  next ready => exact .drained ready
  next batch ready => exact .observed batch ready
  next failsAt reconciles batch gaps ready =>
    unfold System.consume
    simp only
    split
    next index found =>
      obtain ⟨-, within⟩ := Option.filter_eq_some_iff.mp found
      exact .raised batch gaps index ready (of_decide_eq_true within)
    next =>
      split
      next => exact .reconciled batch gaps ready
      next => exact .consumed batch gaps ready
  next => exact .still

theorem run_turned {invariant : System F → Prop} (kept : ∀ s s', Turned settings s s' → invariant s → invariant s')
    (initial : invariant {}) (acts : List (Act F)) : invariant (Machine.run (System.step settings wire) {} acts) :=
  Machine.run_invariant (fun s act h => kept s _ (step_turned s act) h) initial acts

end TradeAgent.OrderStream
