import TradeAgent.BookFeatureEngine

/-! The crypto market feed: one task that owns the connection and publishes into a bounded queue,
one stream that consumes it, and requests for new snapshots between them. -/
namespace TradeAgent.Market

structure FeedSettings where
  symbols : List String
  queueCapacity : ℕ := 5000
  staleNs : ℤ := 5 * nsPerSecond
  nonempty : symbols ≠ []
  distinct : symbols.Nodup
  accommodates : symbols.length ≤ queueCapacity

/-- An event put into the queue; `serial` counts all that were ever to be put there. -/
structure Item where
  serial : ℕ
  event : MarketEvent
  deriving DecidableEq

def Content.isReset : Content → Bool
  | .reset _ => true
  | _ => false

def Item.isMarket (item : Item) : Bool := !item.event.content.isReset

def Item.resets (item : Item) (symbol : String) : Bool :=
  item.event.content.isReset ∧ item.event.symbol = symbol

/-- Why a connection ended. -/
inductive FeedFault where
  | queueOverflow
  | resnapshotRequested (reason : String)
  | integrity (reason : String)
  | protocol (name : String)
  | provider (retryable : Bool)
  | transport (name : String)
  | uncaught
  deriving DecidableEq, Repr

def FeedFault.retryable : FeedFault → Bool
  | .protocol _ | .uncaught => false
  | .provider retryable => retryable
  | _ => true

def FeedFault.reason : FeedFault → String
  | .queueOverflow => "queue_overflow"
  | .resnapshotRequested reason | .integrity reason => reason
  | .protocol name | .transport name => name
  | .provider _ => "StreamProviderError"
  | .uncaught => ""

inductive Health where
  | idle | connecting | awaitingSnapshots | awaitingCurrentBookUpdate | streaming
  | resnapshotRequested | reconnecting | failed | stopped
  deriving DecidableEq, Repr

/-- Where the task that owns the connection stands. -/
inductive Runner where
  | unstarted | opening | handshaking | connected
  | raised (fault : FeedFault)
  | sleeping | stopping | done
  deriving DecidableEq, Repr

/-- Where the stream stands; `holding` has an event out of the queue that it did not yield yet. -/
inductive Consumer where
  | unstarted | ready | waiting
  | holding (item : Item)
  | ended | closed
  deriving DecidableEq

def Consumer.hand : Consumer → List Item
  | .holding item => [item]
  | _ => []

/-- Readings of the clocks; the monotonic one is read anew for each reset. -/
structure Reading where
  atNs : ℤ
  isoformat : String
  monotonicNs : ℕ → ℤ

structure Feed where
  queue : List Item := []
  connectionId : Option Uuid := none
  sequence : ℕ := 0
  subscriptionStartedNs : Option ℤ := none
  books : Dict String Book := .empty
  resnapshotReason : Option String := none
  health : Health := .idle
  stopRequested : Bool := false
  runner : Runner := .unstarted
  consumer : Consumer := .unstarted
  produced : List Item := []
  dropped : List Item := []
  consumed : List Item := []

/-- A frame's message as far as it decodes. -/
structure Decoded where
  symbol : String
  exchangeAtNs : ℤ
  exchangeTimestamp : String
  decodedAtNs : ℤ
  decodedMonotonicNs : ℤ
  providerSequence : Option (ℤ ⊕ String) := none
  content : Content
  market : content.isReset = false

def Decoded.event (decoded : Decoded) (connectionId : Uuid) (sequence : ℕ) (atNs monotonicNs : ℤ) :
    MarketEvent where
  eventId := connectionId ++ ":" ++ toString sequence
  symbol := decoded.symbol
  exchangeAtNs := decoded.exchangeAtNs
  exchangeTimestamp := decoded.exchangeTimestamp
  receivedAtNs := atNs
  receivedMonotonicNs := monotonicNs
  decodedAtNs := some decoded.decodedAtNs
  decodedMonotonicNs := some decoded.decodedMonotonicNs
  connectionId
  receiveSequence := sequence
  providerSequence := decoded.providerSequence
  content := decoded.content

inductive Message where
  | control
  | undecodable
  | market (decoded : Decoded)

namespace Feed

variable (settings : FeedSettings)

def resetEvent (connectionId : Uuid) (sequence : ℕ) (symbol reason : String) (reading : Reading)
    (i : ℕ) : MarketEvent where
  eventId := connectionId ++ ":" ++ toString sequence
  symbol
  exchangeAtNs := reading.atNs
  exchangeTimestamp := reading.isoformat
  receivedAtNs := reading.atNs
  receivedMonotonicNs := reading.monotonicNs i
  connectionId
  receiveSequence := sequence
  content := .reset reason

def drain (f : Feed) : Feed := { f with queue := [], dropped := f.dropped ++ f.queue }

/-- One reset for each symbol; what is queued goes when they do not fit. -/
def resetEvents (f : Feed) (reason : String) (reading : Reading) : Feed :=
  match f.connectionId with
  | none => f
  | some connectionId =>
    let f := if settings.queueCapacity < f.queue.length + settings.symbols.length then f.drain else f
    let resets := settings.symbols.mapIdx fun i symbol =>
      (⟨f.produced.length + i, resetEvent connectionId (f.sequence + 1 + i) symbol reason reading i⟩ : Item)
    { f with
      queue := f.queue ++ resets
      produced := f.produced ++ resets
      sequence := f.sequence + settings.symbols.length
      books := f.books.update (settings.symbols.map fun symbol => (symbol, { reason })) }

def publish (f : Feed) (event : MarketEvent) (reading : Reading) : Feed × Option FeedFault :=
  let item : Item := ⟨f.produced.length, event⟩
  if settings.queueCapacity ≤ f.queue.length then
    ({ f with
        produced := f.produced ++ [item]
        dropped := f.dropped ++ [item]
        health := .reconnecting }.resetEvents settings "queue_overflow" reading, some .queueOverflow)
  else ({ f with queue := f.queue ++ [item], produced := f.produced ++ [item] }, none)

def bookSettings : Settings where
  symbols := settings.symbols
  staleNs := settings.staleNs
  levelsPositive := levels_kept
  eventsPositive := events_kept

/-- What a published event does to the feed's own books. -/
def check (f : Feed) (event : MarketEvent) : Feed × Option FeedFault :=
  if event.receivedAtNs < event.exchangeAtNs then (f, some (.integrity "future_market_event"))
  else match event.content with
    | .book bids asks reset =>
      match f.books.get? event.symbol with
      | none => (f, some .uncaught)
      | some book =>
        let (book, error) := book.apply (bookSettings settings) event bids asks reset
        ({ f with books := f.books.set event.symbol book }, error.map .integrity)
    | .quote bid ask =>
      if ask.price ≤ bid.price ∨ bid.quantity = 0 ∨ ask.quantity = 0 then
        (f, some (.integrity "invalid_quote"))
      else (f, none)
    | _ => (f, none)

/-- A decoded event of a subscribed symbol is published, then checked. -/
def accept (f : Feed) (event : MarketEvent) (reading : Reading) : Feed × Option FeedFault :=
  if (f.books.get? event.symbol).isNone then (f, some (.integrity "unsubscribed_symbol"))
  else match f.publish settings event reading with
    | (f, some fault) => (f, some fault)
    | (f, none) => f.check settings event

def consumeMessage (f : Feed) (connectionId : Uuid) (atNs monotonicNs : ℤ) (reading : Reading) :
    Message → Feed × Option FeedFault
  | .control => (f, some (.integrity "unexpected_stream_message"))
  | .undecodable =>
    ({ f with sequence := f.sequence + 1 }, some (.integrity "invalid_market_message"))
  | .market decoded =>
    { f with sequence := f.sequence + 1 }.accept settings
      (decoded.event connectionId (f.sequence + 1) atNs monotonicNs) reading

def consumeMessages (f : Feed) (connectionId : Uuid) (atNs monotonicNs : ℤ) (reading : Reading) :
    List Message → Feed × Option FeedFault
  | [] => (f, none)
  | message :: rest =>
    match f.consumeMessage settings connectionId atNs monotonicNs reading message with
    | (f, some fault) => (f, some fault)
    | (f, none) => f.consumeMessages connectionId atNs monotonicNs reading rest

def settleHealth (f : Feed) (atNs : ℤ) : Feed × Option FeedFault :=
  let invalid := f.books.values.any fun book => !book.valid
  match f.subscriptionStartedNs with
  | some started =>
    if settings.staleNs < atNs - started ∧ invalid then (f, some (.integrity "snapshot_timeout"))
    else if invalid then (f, none)
    else ({ f with
      health := if f.books.values.any Book.awaitingCurrentUpdate then .awaitingCurrentBookUpdate
        else .streaming }, none)
  | none =>
    if invalid then (f, none)
    else ({ f with
      health := if f.books.values.any Book.awaitingCurrentUpdate then .awaitingCurrentBookUpdate
        else .streaming }, none)

/-- `_consume`: a whole frame without giving way to any other task. -/
def consume (f : Feed) (messages : List Message) (atNs monotonicNs : ℤ) (reading : Reading) :
    Feed × Option FeedFault :=
  match f.resnapshotReason, f.connectionId with
  | some reason, _ => (f, some (.resnapshotRequested reason))
  | none, none => (f, some .uncaught)
  | none, some connectionId =>
    match f.consumeMessages settings connectionId atNs monotonicNs reading messages with
    | (f, some fault) => (f, some fault)
    | (f, none) => f.settleHealth settings atNs

def requestResnapshot (f : Feed) (reason : String) (connectionId : Option Uuid) (reading : Reading) :
    Feed :=
  if f.stopRequested then f
  else if connectionId ≠ none ∧ connectionId ≠ f.connectionId then f
  else if f.resnapshotReason ≠ none ∨ f.health ∈
      [.idle, .connecting, .reconnecting, .awaitingSnapshots, .failed, .stopped] then f
  else { f with
    resnapshotReason := some reason
    health := .resnapshotRequested }.resetEvents settings reason reading

/-- The end of the connection task, whatever ended it. -/
def raise (f : Feed) : Option FeedFault → Feed
  | none => f
  | some fault => { f with runner := .raised fault }

/-- The consumer learns of the end of a connection, unless a request for a snapshot told it. -/
def announce (f : Feed) (fault : FeedFault) (reading : Reading) : Feed :=
  if f.resnapshotReason = none then
    { f with health := .reconnecting }.resetEvents settings fault.reason reading
  else { f with health := .reconnecting }

def handle (f : Feed) (fault : FeedFault) (reading : Reading) : Feed :=
  if fault = .uncaught then { f with runner := .stopping }
  else if fault.retryable then
    { f.announce settings fault reading with resnapshotReason := none, runner := .sleeping }
  else
    { f.announce settings fault reading with
      resnapshotReason := none, health := .failed, runner := .stopping }

def finish (f : Feed) (reading : Reading) : Feed :=
  let stopped : Feed := { f with
    health := if f.health = .failed then .failed else .stopped
    resnapshotReason := none
    runner := .done }
  stopped.resetEvents settings "feed_stopped" reading

end Feed

/-- One uninterrupted stretch of one of the tasks. -/
inductive FeedMove where
  | begin_
  | open_ (connectionId : Uuid) (reading : Reading)
  | subscribed (messages : List Message) (atNs monotonicNs : ℤ) (reading : Reading)
  | frame (messages : List Message) (atNs monotonicNs : ℤ) (reading : Reading)
  | fail (fault : FeedFault)
  | recover
  | handle (reading : Reading)
  | wake
  | stop
  | cancel
  | finish (reading : Reading)
  | request (reason : String) (connectionId : Option Uuid) (reading : Reading)
  | take
  | wait
  | grab
  | deliver
  | unwait
  | end_
  | close

namespace Feed

variable (settings : FeedSettings)

/-- The task's own moves. -/
def stepRunner (f : Feed) : FeedMove → Feed
  | .open_ connectionId reading =>
    if f.runner ≠ .opening then f
    else { f with
      connectionId := some connectionId
      sequence := 0
      health := .connecting
      runner := .handshaking }.resetEvents settings "connected_snapshot_required" reading
  | .subscribed messages atNs monotonicNs reading =>
    if f.runner ≠ .handshaking then f
    else
      let f := { f with
        subscriptionStartedNs := some atNs, health := .awaitingSnapshots, runner := .connected }
      let (f, fault) := f.consume settings messages atNs monotonicNs reading
      f.raise fault
  | .frame messages atNs monotonicNs reading =>
    if f.runner ≠ .connected then f
    else
      let (f, fault) := f.consume settings messages atNs monotonicNs reading
      f.raise fault
  | .fail fault =>
    if f.runner = .handshaking ∨ f.runner = .connected then f.raise (some fault) else f
  | .recover =>
    match f.runner, f.resnapshotReason with
    | .handshaking, some reason | .connected, some reason =>
      f.raise (some (.resnapshotRequested reason))
    | _, _ => f
  | .handle reading =>
    match f.runner with
    | .raised fault => f.handle settings fault reading
    | _ => f
  | .wake =>
    if f.runner ≠ .sleeping then f
    else { f with runner := if f.stopRequested then .stopping else .opening }
  | .cancel =>
    if f.runner = .unstarted ∨ f.runner = .done then f else { f with runner := .stopping }
  | .finish reading => if f.runner = .stopping then f.finish settings reading else f
  | _ => f

/-- The stream's moves. -/
def stepConsumer (f : Feed) : FeedMove → Feed
  | .begin_ =>
    if f.consumer ≠ .unstarted then f
    else if f.stopRequested then { f with consumer := .ended }
    else { f with
      consumer := .ready
      runner := .opening
      books := .ofList (settings.symbols.map fun symbol => (symbol, {})) }
  | .take =>
    match f.consumer, f.queue with
    | .ready, item :: rest => { f with queue := rest, consumed := f.consumed ++ [item] }
    | _, _ => f
  | .wait =>
    if f.consumer = .ready ∧ f.queue = [] ∧ f.runner ≠ .done then { f with consumer := .waiting } else f
  | .grab =>
    match f.consumer, f.queue with
    | .waiting, item :: rest => { f with queue := rest, consumer := .holding item }
    | _, _ => f
  | .deliver =>
    match f.consumer with
    | .holding item => { f with consumer := .ready, consumed := f.consumed ++ [item] }
    | _ => f
  | .unwait => if f.consumer = .waiting ∧ f.runner = .done then { f with consumer := .ready } else f
  | .end_ =>
    if f.consumer = .ready ∧ f.queue = [] ∧ f.runner = .done then { f with consumer := .ended } else f
  | .close => { f with consumer := .closed, stopRequested := true }
  | _ => f

def step (f : Feed) (move : FeedMove) : Feed :=
  match move with
  | .request reason connectionId reading => f.requestResnapshot settings reason connectionId reading
  | .stop => { f with stopRequested := true }
  | .open_ .. | .subscribed .. | .frame .. | .fail _ | .recover | .handle _ | .wake | .cancel
  | .finish _ => f.stepRunner settings move
  | _ => f.stepConsumer settings move

end Feed

end TradeAgent.Market
