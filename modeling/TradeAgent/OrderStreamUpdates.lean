import Mathlib.Data.List.Perm.Basic
import Mathlib.Tactic.Linarith
import TradeAgent.Library.History
import TradeAgent.OrderStream

/-! Where every update goes, in any order of the reader's moves and the runtime's ticks, and what becomes of the gaps. -/
namespace TradeAgent.OrderStream

def Entry.received? : Entry → Option PaperTradeUpdate
  | .received update => some update
  | _ => none

/-- The runtime has taken an update up, whether or not it raised. -/
def Entry.taken? : Entry → Option PaperTradeUpdate
  | .consumed update | .abandoned update => some update
  | _ => none

def Entry.lost? : Entry → Option PaperTradeUpdate
  | .lost update => some update
  | _ => none

def Consumer.batch : Consumer → List PaperTradeUpdate
  | .resting => []
  | .drained batch | .observed batch _ => batch

variable {F : Type} {settings : Settings} {wire : List (String × Json F) → Option WireUpdate} {s s' : System F}
  {stream stream' : Stream F} {entries : List Entry}

/-! ## Updates -/

/-- Received updates are numbered as they come; each is with the runtime, waiting for it, or lost. -/
structure Ledger (settings : Settings) (s : System F) : Prop where
  numbered : (s.log.filterMap Entry.received?).map PaperTradeUpdate.sequence =
    List.range' 1 s.stream.health.receivedUpdates
  dropped : s.stream.health.droppedUpdates = (s.log.filterMap Entry.lost?).length
  ordered : (s.log.filterMap Entry.taken? ++ (s.consumer.batch ++ s.stream.queue)).Sublist
    (s.log.filterMap Entry.received?)
  whole : (s.log.filterMap Entry.lost? ++ (s.log.filterMap Entry.taken? ++ (s.consumer.batch ++ s.stream.queue))).Perm
    (s.log.filterMap Entry.received?)
  bounded : s.stream.queue.length ≤ settings.capacity

/-- A move that brings no update. -/
structure Unheard (s s' : Stream F) (entries : List Entry) : Prop where
  queue : s'.queue = s.queue
  received : s'.health.receivedUpdates = s.health.receivedUpdates
  dropped : s'.health.droppedUpdates = s.health.droppedUpdates
  silent : entries.filterMap Entry.received? = [] ∧ entries.filterMap Entry.lost? = [] ∧
    entries.filterMap Entry.taken? = []

/-- An update comes in, into a queue with room or in the place of the oldest. -/
inductive Arrived (settings : Settings) (s s' : Stream F) : List Entry → Prop where
  | room (update) (sequence : update.sequence = s.health.receivedUpdates + 1)
      (connection : update.connectionId = s.health.connections) (free : s.queue.length ≠ settings.capacity)
      (queue : s'.queue = s.queue ++ [update]) (received : s'.health.receivedUpdates = s.health.receivedUpdates + 1)
      (dropped : s'.health.droppedUpdates = s.health.droppedUpdates) : Arrived settings s s' [.received update]
  | full (update oldest rest) (sequence : update.sequence = s.health.receivedUpdates + 1)
      (connection : update.connectionId = s.health.connections) (waiting : s.queue = oldest :: rest)
      (full : s.queue.length = settings.capacity) (queue : s'.queue = rest ++ [update])
      (received : s'.health.receivedUpdates = s.health.receivedUpdates + 1)
      (dropped : s'.health.droppedUpdates = s.health.droppedUpdates + 1) :
      Arrived settings s s' [.received update, .lost oldest, .gap .queueOverflow]

theorem enqueue_arrived (stream : Stream F) (reader : Reader F) (data : WireUpdate) (receivedAt now : Instant) :
    Arrived settings stream (Stream.enqueue settings ({ stream with reader } : Stream F) data receivedAt now).1
      (Stream.enqueue settings ({ stream with reader } : Stream F) data receivedAt now).2 := by
  unfold Stream.enqueue
  by_cases full : stream.queue.length = settings.capacity
  · simp only [if_pos full]
    cases waiting : stream.queue with
    | nil =>
      rw [waiting] at full
      exact absurd full settings.roomy.ne
    | cons oldest rest => exact .full _ oldest rest rfl rfl waiting full rfl rfl rfl
  · simp only [if_neg full]
    exact .room _ rfl rfl full rfl rfl rfl

theorem start_unheard (now : Instant) :
    Unheard stream { stream with health := stream.health.start now, reader := .starting }
      (.started :: if stream.health.connections = 0 then [] else [.gap .readerRestarted]) := by
  unfold Health.start
  by_cases none_ : stream.health.connections = 0
  · simp only [if_pos none_]
    exact ⟨rfl, rfl, rfl, rfl, rfl, rfl⟩
  · simp only [if_neg none_]
    exact ⟨rfl, rfl, rfl, rfl, rfl, rfl⟩

theorem Stepped.brings (stepped : Stepped settings stream stream' entries) :
    Unheard stream stream' entries ∨ stream.reader.stage? = some .listening ∧
      Arrived settings stream stream' entries := by
  cases stepped with
  | start now => exact .inl (start_unheard now)
  | enqueued now delay payload at_ data ready =>
    refine .inr ⟨?_, enqueue_arrived stream _ data at_ now⟩
    rw [ready]
    rfl
  | _ => exact .inl ⟨rfl, rfl, rfl, rfl, rfl, rfl⟩

theorem Ledger.unheard (h : Ledger settings s) (quiet : Unheard s.stream stream entries) :
    Ledger settings ({ s with stream }.tell entries) := by
  obtain ⟨queue, received, dropped, none_, kept, untaken⟩ := quiet
  constructor
  · simp only [System.tell, List.filterMap_append, none_, List.append_nil, received]
    exact h.numbered
  · simp only [System.tell, List.filterMap_append, kept, List.append_nil, dropped]
    exact h.dropped
  · simp only [System.tell, List.filterMap_append, none_, untaken, List.append_nil, queue]
    exact h.ordered
  · simp only [System.tell, List.filterMap_append, none_, kept, untaken, List.append_nil, queue]
    exact h.whole
  · simp only [System.tell, queue]
    exact h.bounded

theorem Ledger.arrived (h : Ledger settings s) (came : Arrived settings s.stream stream entries) :
    Ledger settings ({ s with stream }.tell entries) := by
  have next : List.range' 1 (s.stream.health.receivedUpdates + 1) =
      List.range' 1 s.stream.health.receivedUpdates ++ [s.stream.health.receivedUpdates + 1] := by
    rw [List.range'_concat]
    simp [Nat.add_comm]
  have ordered := h.ordered
  have whole := h.whole
  have bounded := h.bounded
  cases came with
  | room update sequence connection free queue received dropped =>
    have heard : [Entry.received update].filterMap Entry.received? = [update] := rfl
    have lost : [Entry.received update].filterMap Entry.lost? = [] := rfl
    have taken : [Entry.received update].filterMap Entry.taken? = [] := rfl
    constructor <;> simp only [System.tell, List.filterMap_append, heard, lost, taken, queue, received, dropped,
      List.append_nil]
    · simp [h.numbered, sequence, next]
    · exact h.dropped
    · simpa using ordered.append_right [update]
    · simpa using whole.append_right [update]
    · rw [List.length_append]
      exact lt_of_le_of_ne bounded free
  | full update oldest rest sequence connection waiting full queue received dropped =>
    rw [waiting] at ordered whole full
    have heard : [Entry.received update, .lost oldest, .gap .queueOverflow].filterMap Entry.received? = [update] := rfl
    have lost : [Entry.received update, .lost oldest, .gap .queueOverflow].filterMap Entry.lost? = [oldest] := rfl
    have taken : [Entry.received update, .lost oldest, .gap .queueOverflow].filterMap Entry.taken? = [] := rfl
    constructor <;> simp only [System.tell, List.filterMap_append, heard, lost, taken, queue, received, dropped,
      List.append_nil]
    · simp [h.numbered, sequence, next]
    · rw [List.length_append, h.dropped]
      rfl
    · have fewer : (s.log.filterMap Entry.taken? ++ (s.consumer.batch ++ rest)).Sublist
          (s.log.filterMap Entry.received?) :=
        (((List.sublist_cons_self oldest rest).append_left _).append_left _).trans ordered
      simpa using fewer.append_right [update]
    · have moved : (s.log.filterMap Entry.lost? ++ [oldest] ++ (s.log.filterMap Entry.taken? ++
          (s.consumer.batch ++ rest))).Perm (s.log.filterMap Entry.received?) := by
        refine List.Perm.trans ?_ whole
        rw [List.append_assoc]
        apply List.Perm.append_left
        rw [List.singleton_append, ← List.append_assoc, ← List.append_assoc]
        exact List.perm_middle.symm
      simpa using moved.append_right [update]
    · rw [List.length_append]
      exact full.le

/-- The runtime has been through a batch. -/
structure Handled (batch : List PaperTradeUpdate) (entries : List Entry) : Prop where
  received : entries.filterMap Entry.received? = []
  lost : entries.filterMap Entry.lost? = []
  taken : entries.filterMap Entry.taken? = batch

theorem consumed_handled (batch : List PaperTradeUpdate) : Handled batch (batch.map .consumed) := by
  constructor <;> simp [List.filterMap_map, Function.comp_def, Entry.received?, Entry.lost?, Entry.taken?]

theorem abandoned_handled (batch : List PaperTradeUpdate) : Handled batch (batch.map .abandoned) := by
  constructor <;> simp [List.filterMap_map, Function.comp_def, Entry.received?, Entry.lost?, Entry.taken?]

theorem Handled.append {one two : List PaperTradeUpdate} {more : List Entry} (h : Handled one entries)
    (h' : Handled two more) : Handled (one ++ two) (entries ++ more) := by
  constructor
  · rw [List.filterMap_append, h.received, h'.received, List.append_nil]
  · rw [List.filterMap_append, h.lost, h'.lost, List.append_nil]
  · rw [List.filterMap_append, h.taken, h'.taken]

theorem Ledger.handled (h : Ledger settings s) {batch : List PaperTradeUpdate} {gaps known : ℕ}
    (ready : s.consumer = .observed batch gaps) (handled : Handled batch entries) :
    Ledger settings ({ s with consumer := .resting, lastStreamGaps := known }.tell entries) := by
  obtain ⟨received, lost, taken⟩ := handled
  have ordered := h.ordered
  have whole := h.whole
  rw [ready] at ordered whole
  refine ⟨?_, ?_, ?_, ?_, h.bounded⟩ <;> simp only [System.tell, List.filterMap_append, received, lost, taken,
    List.append_nil, Consumer.batch, List.nil_append, List.append_assoc]
  · exact h.numbered
  · exact h.dropped
  · exact ordered
  · exact whole

theorem Ledger.turned (h : Ledger settings s) (turned : Turned settings s s') : Ledger settings s' := by
  have ordered := h.ordered
  have whole := h.whole
  cases turned with
  | still => exact h
  | reader stepped =>
    rcases stepped.brings with quiet | ⟨-, came⟩
    · exact h.unheard quiet
    · exact h.arrived came
  | drained ready =>
    rw [ready] at ordered whole
    refine ⟨h.numbered, h.dropped, ?_, ?_, Nat.zero_le _⟩
    · simpa [Consumer.batch] using ordered
    · simpa [Consumer.batch] using whole
  | observed batch ready =>
    rw [ready] at ordered whole
    exact ⟨h.numbered, h.dropped, ordered, whole, h.bounded⟩
  | raised batch gaps index ready within =>
    have split := (consumed_handled (batch.take index)).append (abandoned_handled (batch.drop index))
    rw [List.take_append_drop] at split
    exact h.handled ready split
  | consumed batch gaps ready => exact h.handled ready (consumed_handled batch)
  | reconciled batch gaps ready =>
    have reconciled : Handled [] [.reconciled] := ⟨rfl, rfl, rfl⟩
    have both := (consumed_handled batch).append reconciled
    rw [List.append_nil] at both
    exact h.handled ready both

theorem Ledger.initial : Ledger settings ({} : System F) :=
  ⟨rfl, rfl, List.Sublist.slnil, List.Perm.nil, Nat.zero_le _⟩

/-! ## Gaps -/

def Entry.isGap : Entry → Bool
  | .gap _ => true
  | _ => false

/-- A gap, or the loss of an update. -/
def Entry.breach : Entry → Bool
  | .gap _ | .lost _ => true
  | _ => false

def Entry.reconciles : Entry → Bool
  | .reconciled => true
  | _ => false

/-- The gaps known at the last reconciliation fall short of those there are as soon as there is another. -/
structure Watched (s : System F) : Prop where
  counted : s.stream.health.gapCount = s.log.countP Entry.isGap
  known : s.lastStreamGaps ≤ s.stream.health.gapCount
  observing : ∀ batch gaps, s.consumer = .observed batch gaps →
    s.lastStreamGaps ≤ gaps ∧ gaps ≤ s.stream.health.gapCount
  settled : ∀ entry ∈ History.since Entry.reconciles s.log, entry.breach = true →
    s.lastStreamGaps < s.stream.health.gapCount

/-- The gaps that a move brings are counted, and a loss is one. -/
structure Gaps (s s' : Stream F) (entries : List Entry) : Prop where
  counted : s'.health.gapCount = s.health.gapCount + entries.countP Entry.isGap
  breached : ∀ entry ∈ entries, entry.breach = true → 0 < entries.countP Entry.isGap
  silent : ∀ entry ∈ entries, entry.reconciles = false

theorem Stepped.gaps (stepped : Stepped settings stream stream' entries) : Gaps stream stream' entries := by
  cases stepped with
  | start now =>
    by_cases none_ : stream.health.connections = 0
    · simp only [Health.start, if_pos none_]
      exact ⟨rfl, by simp [Entry.breach], by simp [Entry.reconciles]⟩
    · simp only [Health.start, if_neg none_]
      exact ⟨rfl, by simp [Entry.isGap], by simp [Entry.reconciles]⟩
  | enqueued now delay payload at_ data =>
    unfold Stream.enqueue
    split
    next =>
      refine ⟨?_, ?_, ?_⟩
      · cases stream.queue.head? <;> rfl
      · intro _ _ _
        simp [Entry.isGap]
      · intro entry member
        simp only [List.mem_cons, List.mem_append, List.mem_map, List.not_mem_nil, or_false] at member
        rcases member with rfl | ⟨lost, -, rfl⟩ | rfl <;> rfl
    next => exact ⟨rfl, by simp [Entry.breach], by simp [Entry.reconciles]⟩
  | _ => exact ⟨rfl, by simp [Entry.breach, Entry.isGap, Stream.fail], by simp [Entry.reconciles, Stream.fail]⟩

/-- What the runtime does with a batch is no gap. -/
theorem Watched.quiet (h : Watched s) (quiet : ∀ entry ∈ entries, entry.breach = false ∧ entry.reconciles = false) :
    Watched ({ s with consumer := .resting }.tell entries) := by
  have none_ : entries.countP Entry.isGap = 0 := by
    rw [List.countP_eq_zero]
    intro entry member
    have := (quiet entry member).1
    cases entry <;> simp_all [Entry.isGap, Entry.breach]
  refine ⟨?_, h.known, by simp [System.tell], ?_⟩
  · change s.stream.health.gapCount = (s.log ++ entries).countP Entry.isGap
    rw [h.counted, List.countP_append, none_]
    rfl
  · intro entry member breach
    change entry ∈ History.since Entry.reconciles (s.log ++ entries) at member
    rw [History.since_append fun entry member => (quiet entry member).2, List.mem_append, List.mem_reverse] at member
    rcases member with new | old
    · rw [(quiet entry new).1] at breach
      cases breach
    · exact h.settled entry old breach

theorem handled_quiet (one two : List PaperTradeUpdate) :
    ∀ entry ∈ one.map Entry.consumed ++ two.map Entry.abandoned, entry.breach = false ∧ entry.reconciles = false := by
  intro entry member
  simp only [List.mem_append, List.mem_map] at member
  rcases member with ⟨update, -, rfl⟩ | ⟨update, -, rfl⟩ <;> exact ⟨rfl, rfl⟩

theorem Watched.turned (h : Watched s) (turned : Turned settings s s') : Watched s' := by
  cases turned with
  | still => exact h
  | @reader stream entries stepped =>
    obtain ⟨counted, breached, silent⟩ := stepped.gaps
    have known := h.known
    refine ⟨?_, ?_, ?_, ?_⟩
    · change stream.health.gapCount = (s.log ++ entries).countP Entry.isGap
      rw [counted, h.counted, List.countP_append]
    · change s.lastStreamGaps ≤ stream.health.gapCount
      omega
    · intro batch gaps ready
      obtain ⟨least, most⟩ := h.observing batch gaps ready
      refine ⟨least, ?_⟩
      change gaps ≤ stream.health.gapCount
      omega
    · intro entry member breach
      change s.lastStreamGaps < stream.health.gapCount
      change entry ∈ History.since Entry.reconciles (s.log ++ entries) at member
      rw [History.since_append silent, List.mem_append, List.mem_reverse] at member
      rcases member with new | old
      · have := breached entry new breach
        omega
      · have := h.settled entry old breach
        omega
  | drained ready => exact ⟨h.counted, h.known, by simp, h.settled⟩
  | observed batch ready =>
    refine ⟨h.counted, h.known, ?_, h.settled⟩
    rintro _ _ ⟨⟩
    exact ⟨h.known, le_rfl⟩
  | raised batch gaps index ready within =>
    exact h.quiet (handled_quiet _ _)
  | consumed batch gaps ready =>
    have all := h.quiet (handled_quiet batch [])
    rwa [List.map_nil, List.append_nil] at all
  | reconciled batch gaps ready =>
    have all := h.quiet (handled_quiet batch [])
    rw [List.map_nil, List.append_nil] at all
    refine ⟨?_, (h.observing batch gaps ready).2, by simp [System.tell], ?_⟩
    · change s.stream.health.gapCount = (s.log ++ (batch.map Entry.consumed ++ [Entry.reconciled])).countP Entry.isGap
      rw [← List.append_assoc, List.countP_append]
      exact all.counted
    · intro entry member
      change entry ∈ History.since Entry.reconciles (s.log ++ (batch.map Entry.consumed ++ [.reconciled])) at member
      rw [← List.append_assoc, History.since_mark rfl] at member
      cases member

theorem Watched.initial : Watched ({} : System F) := ⟨rfl, le_rfl, by simp, by simp⟩

end TradeAgent.OrderStream
