import TradeAgent.Library.Machine
import TradeAgent.ShadowRecorder

/-! The recorder loses no count: what was received is committed, dropped, queued or in flight, a
batch is counted as its first commit left it, and every drop is announced. -/
namespace TradeAgent.Shadow

section persist

variable {numeric : ℚ → ℚ} {processedAt : Instant} {receipts : List ReceivedStreamEvent}
  {db : Database}

variable (numeric processedAt) in
/-- Every receipt makes one row. -/
theorem rows_length (receipts : List ReceivedStreamEvent) :
    (receipts.filterMap (barRow processedAt)).length +
      (receipts.filterMap (quoteRow numeric processedAt)).length +
      (receipts.filterMap (tradeRow processedAt)).length = receipts.length := by
  induction receipts with
  | nil => rfl
  | cons receipt rest ih =>
    obtain ⟨event, receivedAt⟩ := receipt
    cases event <;> simp [List.filterMap_cons, barRow, quoteRow, tradeRow] at ih ⊢ <;> omega

variable (numeric processedAt) in
theorem insertMarket_le (receipts : List ReceivedStreamEvent) (db : Database) :
    (insertMarket numeric processedAt receipts db).2 ≤ receipts.length := by
  have total := rows_length numeric processedAt receipts
  have bars := db.marketBars.fill_created_le (receipts.filterMap (barRow processedAt))
  have quotes := db.marketQuotes.fill_created_le (receipts.filterMap (quoteRow numeric processedAt))
  have trades := db.marketTrades.fill_created_le (receipts.filterMap (tradeRow processedAt))
  simp only [insertMarket]
  omega

variable (numeric processedAt) in
theorem insertMarket_rows (receipts : List ReceivedStreamEvent) (db : Database) :
    (insertMarket numeric processedAt receipts db).1.marketRows =
      db.marketRows + (insertMarket numeric processedAt receipts db).2 := by
  simp only [insertMarket, Database.marketRows, Dict.fill_size]
  omega

def keyed (row : EventRow) : String × EventRow := (row.eventId, row)

theorem keyed_keys (rows : List EventRow) :
    (rows.map keyed).map Prod.fst = rows.map EventRow.eventId := by
  rw [List.map_map]
  rfl

/-- New audit rows of distinct identities are all stored. -/
theorem insertAudit_fresh {audit : List EventRow} (distinct : (audit.map EventRow.eventId).Nodup)
    (fresh : ∀ row ∈ audit, db.events.get? row.eventId = none) :
    (insertAudit audit db).events.entries = db.events.entries ++ audit.map keyed := by
  have unbound : ∀ row ∈ audit.map keyed, (Dict.empty : Dict String EventRow).get? row.1 = none :=
    fun _ _ => rfl
  have byId : ((Dict.empty : Dict String EventRow).fill (audit.map keyed)).1.entries =
      audit.map keyed :=
    (Dict.fill_fresh (by rwa [keyed_keys]) unbound).1
  have unstored : ∀ row ∈ audit.map keyed, db.events.get? row.1 = none := by
    intro e member
    obtain ⟨row, inAudit, rfl⟩ := List.mem_map.mp member
    exact fresh row inAudit
  have stored := Dict.fill_fresh (by rwa [keyed_keys]) unstored
  show (db.events.fill (Dict.fill Dict.empty (audit.map keyed)).1.entries).1.entries = _
  rw [byId]
  exact stored.1

/-- Audit rows stored already change nothing. -/
theorem insertAudit_bound {audit : List EventRow}
    (bound : ∀ row ∈ audit, db.events.get? row.eventId ≠ none) : insertAudit audit db = db := by
  have present : ∀ e ∈ ((Dict.empty : Dict String EventRow).fill (audit.map keyed)).1.entries,
      db.events.get? e.1 ≠ none := by
    intro e member
    rcases Dict.fill_mem member with impossible | inAudit
    · cases impossible
    · obtain ⟨row, inside, rfl⟩ := List.mem_map.mp inAudit
      exact bound row inside
  have events : db.events.fill (Dict.fill Dict.empty (audit.map keyed)).1.entries = (db.events, []) :=
    Dict.fill_bound present
  unfold keyed at events
  simp only [insertAudit, events]
  rfl

/-- What a batch leaves in the event log. -/
def auditOf (batch : Batch) (processedAt : Instant) (instanceId : Option String)
    (result : BatchWriteResult) : List EventRow :=
  batch.notices ++ batchRow batch.batchId processedAt instanceId result batch.receipts

theorem batchRow_id (batchId : String) (instanceId : Option String) (result : BatchWriteResult)
    (receipts : List ReceivedStreamEvent) :
    ∀ row ∈ batchRow batchId processedAt instanceId result receipts, row.eventId = batchId := by
  cases receipts <;> simp [batchRow]

/-- What a batch that has not been written needs of its identities. -/
structure Unwritten (batch : Batch) (db : Database) : Prop where
  distinct : (batch.batchId :: batch.notices.map EventRow.eventId).Nodup
  unaudited : db.events.get? batch.batchId = none
  unstored : ∀ row ∈ batch.notices, db.events.get? row.eventId = none

variable (numeric processedAt) in
/-- The first write of a batch counts every receipt once and stores its notices and its audit. -/
theorem persist_first {batch : Batch} (instanceId : Option String) (unwritten : Unwritten batch db) :
    ∃ db' result,
      persistShadowBatch numeric batch.receipts batch.notices batch.batchId processedAt instanceId db =
        .ok (db', result) ∧
      result.inserted + result.duplicates = batch.receipts.length ∧
      db'.marketRows = db.marketRows + result.inserted ∧
      db'.events.entries =
        db.events.entries ++ (auditOf batch processedAt instanceId result).map keyed := by
  have bound := insertMarket_le numeric processedAt batch.receipts db
  have market := insertMarket_rows numeric processedAt batch.receipts db
  set stored := insertMarket numeric processedAt batch.receipts db with inserted
  have events : stored.1.events = db.events := by rw [inserted]; rfl
  let result : BatchWriteResult := ⟨stored.2, batch.receipts.length - stored.2⟩
  refine ⟨insertAudit (auditOf batch processedAt instanceId result) stored.1, result, ?_, ?_, ?_, ?_⟩
  · rw [persistShadowBatch, unwritten.unaudited]
    rfl
  · simp only [result]
    omega
  · exact market
  · rw [insertAudit_fresh, events]
    · have ids := unwritten.distinct
      simp only [auditOf, List.map_append]
      cases batch.receipts with
      | nil => simpa [batchRow] using (List.nodup_cons.mp ids).2
      | cons first rest =>
        have apart := List.nodup_cons.mp ids
        refine List.nodup_append.mpr ⟨apart.2, by simp [batchRow], ?_⟩
        rintro id inNotices other inBatch rfl
        simp only [batchRow, List.map_cons, List.map_nil, List.mem_singleton] at inBatch
        exact apart.1 (inBatch ▸ inNotices)
    · intro row member
      rw [events]
      rcases List.mem_append.mp member with notice | audit
      · exact unwritten.unstored row notice
      · rw [batchRow_id _ _ _ _ row audit]
        exact unwritten.unaudited

/-- What a batch leaves behind once it is written, whether or not the recorder knows. -/
structure Written (batch : Batch) (result : BatchWriteResult) (db : Database) : Prop where
  total : result.inserted + result.duplicates = batch.receipts.length
  audit : batch.receipts ≠ [] → ∃ row audit, db.events.get? batch.batchId = some row ∧
    row.payload = .batch audit ∧ audit.result = result
  unaudited : batch.receipts = [] → db.events.get? batch.batchId = none
  notices : ∀ row ∈ batch.notices, db.events.get? row.eventId ≠ none

theorem Unwritten.written {batch : Batch} {db' : Database} {instanceId : Option String}
    {result : BatchWriteResult} (total : result.inserted + result.duplicates = batch.receipts.length)
    (unwritten : Unwritten batch db)
    (entries : db'.events.entries =
      db.events.entries ++ (auditOf batch processedAt instanceId result).map keyed) :
    Written batch result db' := by
  have bound : ∀ row ∈ auditOf batch processedAt instanceId result,
      db'.events.get? row.eventId = some row := by
    intro row member
    apply Dict.mem_entries.mp
    rw [entries]
    exact List.mem_append_right _ (List.mem_map_of_mem (f := keyed) member)
  refine ⟨total, ?_, ?_, ?_⟩
  · intro nonempty
    obtain ⟨first, rest, receipts⟩ := List.exists_cons_of_ne_nil nonempty
    have found := bound _ (List.mem_append_right _ (by rw [receipts]; exact List.mem_singleton_self _))
    exact ⟨_, _, found, rfl, rfl⟩
  · intro empty
    rw [Dict.get?_none_iff, Dict.keys, entries, List.map_append, List.mem_append, not_or]
    refine ⟨Dict.get?_none_iff.mp unwritten.unaudited, ?_⟩
    rw [keyed_keys, auditOf, empty]
    simpa [batchRow] using (List.nodup_cons.mp unwritten.distinct).1
  · intro row member
    simp [bound row (List.mem_append_left _ member)]

/-- Writing a batch again counts what its first write counted and changes nothing. -/
theorem persist_again {batch : Batch} {result : BatchWriteResult} (instanceId : Option String)
    (written : Written batch result db) :
    persistShadowBatch numeric batch.receipts batch.notices batch.batchId processedAt instanceId db =
      .ok (db, result) := by
  cases empty : batch.receipts with
  | nil =>
    have total := written.total
    rw [empty] at total
    have zero : result = ⟨0, 0⟩ := by
      obtain ⟨inserted, duplicates⟩ := result
      simp only [List.length_nil] at total
      congr <;> omega
    rw [persistShadowBatch, written.unaudited empty]
    show Except.ok (insertAudit (batch.notices ++ []) db, (⟨0, 0⟩ : BatchWriteResult)) = _
    rw [List.append_nil, insertAudit_bound written.notices, zero]
  | cons first rest =>
    obtain ⟨row, audit, found, payload, same⟩ := written.audit (by simp [empty])
    rw [persistShadowBatch, found]
    simp only [payload, same]

end persist

section accounts

/-- The batch that the task has in hand. -/
def RunStage.batch : RunStage → Option Batch
  | .writing batch _ | .written batch _ _ | .sleeping batch _ | .failed batch _ => some batch
  | .looping | .committed | .ended => none

def dropsOf (rows : List EventRow) : ℕ := (rows.map fun row => row.payload.droppedEvents).sum

/-- Drops announced by notices in hand that no commit has stored yet. -/
def Recorder.unstored (s : Recorder) : ℕ :=
  match s.stage.batch, s.landed with
  | some batch, none => dropsOf batch.notices
  | _, _ => 0

def Recorder.pending (s : Recorder) : ℕ := (s.overflow.map Overflow.droppedEvents).getD 0

def Recorder.landedRows (s : Recorder) : ℕ := (s.landed.map BatchWriteResult.inserted).getD 0

/-- Audit rows of the batch in hand. -/
def Recorder.landedAudits (s : Recorder) : ℕ :=
  match s.stage.batch, s.landed with
  | some batch, some _ => if batch.receipts.isEmpty then 0 else 1
  | _, _ => 0

variable (uuid : ℕ → String) (origin : Database)

/-- Identities issued so far. -/
def Issued (s : Recorder) (id : String) : Prop := ∃ i < s.identities, id = uuid i

structure InHand (s : Recorder) (batch : Batch) : Prop where
  flight : s.inFlight = batch.receipts.length
  issued : ∀ id ∈ batch.batchId :: batch.notices.map EventRow.eventId, Issued uuid s id
  distinct : (batch.batchId :: (batch.notices ++ s.notices).map EventRow.eventId).Nodup
  plain : ∀ row ∈ batch.notices, row.payload.isBatch = false
  uncounted : batch.batchId ∉ s.counted.map Prod.fst
  unwritten : s.landed = none → Unwritten batch s.database
  written : ∀ result, s.landed = some result → Written batch result s.database

structure Accounted (s : Recorder) : Prop where
  conserved : s.received = s.committed + s.dropped + s.queue.length + s.inFlight
  divided : s.inserted + s.duplicates = s.committed
  stored : s.database.marketRows = origin.marketRows + s.inserted + s.landedRows
  announced : s.database.announced + s.unstored + s.pending = origin.announced + s.dropped
  audited : s.database.audited = origin.audited + s.counted.length + s.landedAudits
  known : ∀ id, s.database.events.get? id ≠ none → origin.events.get? id ≠ none ∨ Issued uuid s id
  issued : ∀ row ∈ s.notices, Issued uuid s row.eventId
  plain : ∀ row ∈ s.notices, row.payload.droppedEvents = 0 ∧ row.payload.isBatch = false
  distinct : (s.notices.map EventRow.eventId).Nodup
  fresh : ∀ row ∈ s.notices, s.database.events.get? row.eventId = none
  counted : ∀ e ∈ s.counted, ∃ row audit, s.database.events.get? e.1 = some row ∧
    row.payload = .batch audit ∧ audit.result = e.2
  once : (s.counted.map Prod.fst).Nodup
  hand : ∀ batch, s.stage.batch = some batch → InHand uuid s batch
  idle : s.stage.batch = none → s.inFlight = 0 ∧ s.landed = none
  outcome : ∀ batch attempt result, s.stage = .written batch attempt (.ok result) →
    s.landed = some result

variable {uuid origin} {s : Recorder}

theorem Accounted.initial (database : Database) :
    Accounted uuid database ({ database } : Recorder) where
  conserved := rfl
  divided := rfl
  stored := rfl
  announced := rfl
  audited := rfl
  known _ present := .inl present
  issued := by simp
  plain := by simp
  distinct := by simp
  fresh := by simp
  counted := by simp
  once := by simp
  hand _ at_ := by cases at_
  idle _ := ⟨rfl, rfl⟩
  outcome _ _ _ at_ := by cases at_

theorem Accounted.offer (h : Accounted uuid origin s) (settings : Settings)
    (receipt : ReceivedStreamEvent) : Accounted uuid origin (s.offer settings receipt) := by
  have conserved := h.conserved
  unfold Recorder.offer
  dsimp only
  split
  next =>
    have announced := h.announced
    refine { h with conserved := by dsimp only; omega, announced := ?_, hand := ?_ }
    · show s.database.announced + s.unstored + ((s.overflow.getD _).droppedEvents + 1) =
        origin.announced + (s.dropped + 1)
      have pending : (s.overflow.getD ⟨0, receipt.receivedAt, receipt.event.timestamp,
          receipt.receivedAt, receipt.event.timestamp⟩).droppedEvents = s.pending := by
        unfold Recorder.pending
        cases s.overflow <;> rfl
      omega
    · exact fun batch at_ => { h.hand batch at_ with }
  next =>
    refine { h with conserved := ?_, hand := fun batch at_ => { h.hand batch at_ with } }
    simp only [List.length_append, List.length_singleton]
    omega

/-- The notice that announces the pending drops. -/
def gapRows (uuid : ℕ → String) (now : Instant) (s : Recorder) : List EventRow :=
  match s.overflow with
  | none => []
  | some overflow => [noticeRow (uuid s.identities) "shadow_recorder_gap" (.overflow overflow) now]

/-- A batch takes what fits of the queue, every notice and the pending drops. -/
theorem begin_eq (settings : Settings) (now : Instant) (s : Recorder) :
    s.begin_ settings uuid now = { s with
      queue := s.queue.drop settings.batchSize
      notices := []
      overflow := none
      identities := s.identities + (gapRows uuid now s).length + 1
      inFlight := (s.queue.take settings.batchSize).length
      stage := .writing ⟨s.queue.take settings.batchSize, s.notices ++ gapRows uuid now s,
        uuid (s.identities + (gapRows uuid now s).length)⟩ 0
      landed := none } := by
  cases overflow : s.overflow with
  | none => simp [Recorder.begin_, Recorder.announce, gapRows, overflow]
  | some o => simp [Recorder.begin_, Recorder.announce, Recorder.notice, gapRows, overflow]

theorem gapRows_drops (now : Instant) (s : Recorder) : dropsOf (gapRows uuid now s) = s.pending := by
  unfold gapRows Recorder.pending
  cases s.overflow with
  | none => rfl
  | some o => simp [dropsOf, noticeRow, EventPayload.droppedEvents]

variable (uuid) in
theorem gapRows_spec (now : Instant) (s : Recorder) : ∀ row ∈ gapRows uuid now s,
    row.eventId = uuid s.identities ∧ s.identities < s.identities + (gapRows uuid now s).length ∧
      row.payload.isBatch = false := by
  unfold gapRows
  cases s.overflow <;> simp [noticeRow, EventPayload.isBatch]

theorem dropsOf_append (first second : List EventRow) :
    dropsOf (first ++ second) = dropsOf first + dropsOf second := by
  simp [dropsOf]

theorem dropsOf_plain {rows : List EventRow} (plain : ∀ row ∈ rows, row.payload.droppedEvents = 0) :
    dropsOf rows = 0 := by
  refine List.sum_eq_zero fun n member => ?_
  obtain ⟨row, inRows, rfl⟩ := List.mem_map.mp member
  exact plain row inRows

section identities

variable (injective : ∀ i j, uuid i = uuid j → i = j) (unused : ∀ i, origin.events.get? (uuid i) = none)
include injective unused

/-- The next identity is new to the log, to the notices and to the batch in hand. -/
theorem Accounted.fresh_next (h : Accounted uuid origin s) {i : ℕ} (next : s.identities ≤ i) :
    s.database.events.get? (uuid i) = none ∧ ¬ Issued uuid s (uuid i) := by
  have notIssued : ¬ Issued uuid s (uuid i) := by
    rintro ⟨j, below, same⟩
    have := injective _ _ same
    omega
  refine ⟨?_, notIssued⟩
  by_contra present
  rcases h.known _ present with old | issued
  · exact old (unused i)
  · exact notIssued issued

omit injective unused in
theorem Issued.later {t : Recorder} {id : String} (issued : Issued uuid s id)
    (grown : s.identities ≤ t.identities) : Issued uuid t id := by
  obtain ⟨i, below, same⟩ := issued
  exact ⟨i, by omega, same⟩

theorem Accounted.notice (h : Accounted uuid origin s) (eventType : String)
    (fields : List (String × String)) (now : Instant) :
    Accounted uuid origin (s.notice uuid eventType (.status fields) now) := by
  unfold Recorder.notice
  split
  next => exact { h with hand := fun batch at_ => { h.hand batch at_ with } }
  next =>
    obtain ⟨absent, notIssued⟩ := h.fresh_next injective unused (Nat.le_refl _)
    refine { h with known := ?_, issued := ?_, plain := ?_, distinct := ?_, fresh := ?_, hand := ?_ }
    · intro id present
      exact (h.known id present).imp_right fun issued => issued.later (Nat.le_succ _)
    · intro row member
      rcases List.mem_append.mp member with old | new
      · exact (h.issued row old).later (Nat.le_succ _)
      · rw [List.mem_singleton.mp new]
        exact ⟨s.identities, Nat.lt_succ_self _, rfl⟩
    · intro row member
      rcases List.mem_append.mp member with old | new
      · exact h.plain row old
      · rw [List.mem_singleton.mp new]
        exact ⟨rfl, rfl⟩
    · rw [List.map_append, List.nodup_append]
      refine ⟨h.distinct, by simp, ?_⟩
      rintro id inNotices _ new rfl
      obtain ⟨row, member, rfl⟩ := List.mem_map.mp inNotices
      simp only [List.map_cons, List.map_nil, List.mem_singleton, noticeRow] at new
      exact notIssued (new ▸ h.issued row member)
    · intro row member
      rcases List.mem_append.mp member with old | new
      · exact h.fresh row old
      · rw [List.mem_singleton.mp new]
        exact absent
    · intro batch at_
      have hand := h.hand batch at_
      refine { hand with issued := ?_, distinct := ?_ }
      · exact fun id member => (hand.issued id member).later (Nat.le_succ _)
      · have old := hand.distinct
        have apart : uuid s.identities ∉ batch.batchId :: (batch.notices ++ s.notices).map EventRow.eventId := by
          intro member
          rw [List.map_append, ← List.cons_append] at member
          rcases List.mem_append.mp member with inHand | queued
          · exact notIssued (hand.issued _ inHand)
          · obtain ⟨row, inNotices, same⟩ := List.mem_map.mp queued
            exact notIssued (same ▸ h.issued row inNotices)
        rw [← List.append_assoc, List.map_append, ← List.cons_append]
        refine List.nodup_append.mpr ⟨old, by simp, ?_⟩
        rintro id inOld _ new rfl
        simp only [List.map_cons, List.map_nil, List.mem_singleton, noticeRow] at new
        exact apart (new ▸ inOld)

theorem Accounted.streamStatus (h : Accounted uuid origin s) (fields : List (String × String))
    (gap : Bool) (now : Instant) : Accounted uuid origin (s.streamStatus uuid fields gap now) := by
  unfold Recorder.streamStatus
  refine Accounted.notice injective unused ?_ _ _ _
  exact { h with hand := fun batch at_ => { h.hand batch at_ with } }

theorem Accounted.begin_ (h : Accounted uuid origin s) (settings : Settings) (now : Instant)
    (idle : s.stage.batch = none) : Accounted uuid origin (s.begin_ settings uuid now) := by
  obtain ⟨landed, flight⟩ := (h.idle idle).symm
  have conserved := h.conserved
  have announced := h.announced
  have audited := h.audited
  have stored := h.stored
  have gap := gapRows_spec uuid now s
  obtain ⟨absent, notIssued⟩ := h.fresh_next injective unused
    (Nat.le_add_right s.identities (gapRows uuid now s).length)
  have noticed : ∀ row ∈ s.notices ++ gapRows uuid now s,
      (∃ i < s.identities + (gapRows uuid now s).length, row.eventId = uuid i) ∧
        s.database.events.get? row.eventId = none ∧ row.payload.isBatch = false := by
    intro row member
    rcases List.mem_append.mp member with old | new
    · obtain ⟨i, below, same⟩ := h.issued row old
      exact ⟨⟨i, by omega, same⟩, h.fresh row old, (h.plain row old).2⟩
    · obtain ⟨same, below, plain⟩ := gap row new
      refine ⟨⟨s.identities, below, same⟩, ?_, plain⟩
      rw [same]
      exact (h.fresh_next injective unused (Nat.le_refl _)).1
  have distinct : ((s.notices ++ gapRows uuid now s).map EventRow.eventId).Nodup := by
    rw [List.map_append, List.nodup_append]
    refine ⟨h.distinct, ?_, ?_⟩
    · unfold gapRows
      cases s.overflow <;> simp
    · rintro id inNotices _ inGap rfl
      obtain ⟨row, member, rfl⟩ := List.mem_map.mp inNotices
      obtain ⟨gapRow, gapMember, same⟩ := List.mem_map.mp inGap
      obtain ⟨i, below, issued⟩ := h.issued row member
      have := injective _ _ (issued.symm.trans (same.symm.trans (gap gapRow gapMember).1))
      omega
  have apart : uuid (s.identities + (gapRows uuid now s).length) ∉
      (s.notices ++ gapRows uuid now s).map EventRow.eventId := by
    intro member
    obtain ⟨row, inside, same⟩ := List.mem_map.mp member
    obtain ⟨⟨i, below, issued⟩, -⟩ := noticed row inside
    have := injective _ _ (issued.symm.trans same)
    omega
  have drops : dropsOf (s.notices ++ gapRows uuid now s) = s.pending := by
    rw [dropsOf_append, gapRows_drops, dropsOf_plain fun row member => (h.plain row member).1,
      Nat.zero_add]
  rw [begin_eq]
  refine { h with
    conserved := ?_, stored := ?_, announced := ?_, audited := ?_, known := ?_, issued := by simp
    plain := by simp, distinct := by simp, fresh := by simp, hand := ?_, idle := ?_, outcome := ?_ }
  · have split := congrArg List.length (List.take_append_drop settings.batchSize s.queue)
    rw [List.length_append] at split
    dsimp only
    omega
  · simpa [Recorder.landedRows, landed] using stored
  · have before : s.unstored = 0 := by simp [Recorder.unstored, idle]
    show s.database.announced + dropsOf (s.notices ++ gapRows uuid now s) + 0 =
      origin.announced + s.dropped
    rw [drops]
    omega
  · have before : s.landedAudits = 0 := by simp [Recorder.landedAudits, idle]
    show s.database.audited = origin.audited + s.counted.length + 0
    omega
  · intro id present
    exact (h.known id present).imp_right fun issued => issued.later (by dsimp only; omega)
  · intro batch at_
    obtain rfl := Option.some.inj at_
    refine ⟨rfl, ?_, by simpa using ⟨by simpa using apart, by simpa using distinct⟩, ?_, ?_, ?_, ?_⟩
    · intro id member
      rcases List.mem_cons.mp member with rfl | inNotices
      · exact ⟨_, Nat.lt_succ_self _, rfl⟩
      · obtain ⟨row, inside, rfl⟩ := List.mem_map.mp inNotices
        obtain ⟨⟨i, below, same⟩, -⟩ := noticed row inside
        exact ⟨i, by dsimp only; omega, same⟩
    · exact fun row member => (noticed row member).2.2
    · intro member
      obtain ⟨e, inCounted, same⟩ := List.mem_map.mp member
      obtain ⟨row, audit, found, -⟩ := h.counted e inCounted
      simp [same, absent] at found
    · intro _
      exact ⟨List.nodup_cons.mpr ⟨apart, distinct⟩, absent, fun row member => (noticed row member).2.1⟩
    · intro result impossible
      cases impossible
  · intro impossible
    cases impossible
  · intro _ _ _ impossible
    cases impossible

theorem Accounted.run (h : Accounted uuid origin s) (settings : Settings) (now : Instant) :
    Accounted uuid origin (s.run settings uuid now) := by
  have rest : s.stage.batch = none → Accounted uuid origin
      (if s.queue.isEmpty ∧ s.notices.isEmpty ∧ s.overflow.isNone then
        { s with stage := if s.stop then .ended else .looping }
      else s.begin_ settings uuid now) := by
    intro idle
    split
    next =>
      have unstored : s.unstored = 0 := by simp [Recorder.unstored, idle]
      have audits : s.landedAudits = 0 := by simp [Recorder.landedAudits, idle]
      have announced := h.announced
      have audited := h.audited
      rw [unstored] at announced
      rw [audits] at audited
      cases s.stop <;> exact { h with
        announced, audited, hand := nofun, idle := fun _ => h.idle idle, outcome := nofun }
    next => exact h.begin_ injective unused settings now idle
  unfold Recorder.run
  cases at_ : s.stage with
  | looping | committed => exact rest (by rw [at_]; rfl)
  | sleeping batch attempt =>
    have hand := h.hand batch (by rw [at_]; rfl)
    have announced := h.announced
    have audited := h.audited
    simp only [Recorder.unstored, Recorder.landedAudits, at_, RunStage.batch] at announced audited
    refine { h with announced, audited, hand := ?_, idle := nofun, outcome := nofun }
    intro other same
    obtain rfl := Option.some.inj same
    exact { hand with }
  | writing | written | ended | failed => exact h

omit injective unused in
/-- The first commit of the batch in hand. -/
theorem Accounted.land (h : Accounted uuid origin s) {batch : Batch} (at_ : s.stage.batch = some batch)
    (landed : s.landed = none) {processedAt : Instant} {instanceId : Option String}
    {database : Database} {result : BatchWriteResult} (stage : RunStage)
    (same : stage.batch = some batch)
    (outcome : ∀ batch attempt other, stage = .written batch attempt (.ok other) → other = result)
    (total : result.inserted + result.duplicates = batch.receipts.length)
    (rows : database.marketRows = s.database.marketRows + result.inserted)
    (entries : database.events.entries =
      s.database.events.entries ++ (auditOf batch processedAt instanceId result).map keyed) :
    Accounted uuid origin { s with database, landed := some result, stage } := by
  have hand := h.hand batch at_
  have written := (hand.unwritten landed).written total entries
  have stored := h.stored
  have announced := h.announced
  have audited := h.audited
  have kept : ∀ id row, s.database.events.get? id = some row → database.events.get? id = some row := by
    intro id row found
    apply Dict.mem_entries.mp
    rw [entries]
    exact List.mem_append_left _ (Dict.mem_entries.mpr found)
  have ids : ∀ row ∈ auditOf batch processedAt instanceId result,
      row.eventId ∈ batch.batchId :: batch.notices.map EventRow.eventId := by
    intro row member
    rcases List.mem_append.mp member with notice | audit
    · exact List.mem_cons_of_mem _ (List.mem_map_of_mem notice)
    · rw [batchRow_id _ _ _ _ row audit]
      exact List.mem_cons_self
  have added : ∀ id, database.events.get? id ≠ none → s.database.events.get? id ≠ none ∨
      id ∈ batch.batchId :: batch.notices.map EventRow.eventId := by
    intro id present
    obtain ⟨row, found⟩ := Option.ne_none_iff_exists'.mp present
    have member := Dict.mem_entries.mpr found
    rw [entries] at member
    rcases List.mem_append.mp member with old | new
    · left
      rw [Dict.mem_entries.mp old]
      simp
    · right
      obtain ⟨audit, inside, same⟩ := List.mem_map.mp new
      obtain rfl : audit.eventId = id := congrArg Prod.fst same
      exact ids audit inside
  have drops : database.announced = s.database.announced + dropsOf batch.notices := by
    simp only [Database.announced, entries, List.map_append, List.sum_append, auditOf, dropsOf]
    cases batch.receipts <;> simp [batchRow, keyed, EventPayload.droppedEvents, Function.comp_def]
  have audits : database.audited = s.database.audited + if batch.receipts.isEmpty then 0 else 1 := by
    have notices : (batch.notices.map keyed).countP (fun e => e.2.payload.isBatch) = 0 := by
      refine List.countP_eq_zero.mpr fun e member => ?_
      obtain ⟨row, inside, rfl⟩ := List.mem_map.mp member
      simp [keyed, hand.plain row inside]
    simp only [Database.audited, entries, List.countP_append, auditOf, List.map_append, notices]
    cases batch.receipts <;> simp [batchRow, keyed, EventPayload.isBatch]
  refine { h with
    stored := ?_, announced := ?_, audited := ?_, known := ?_, fresh := ?_, counted := ?_
    hand := ?_, idle := ?_, outcome := ?_ }
  · simp only [Recorder.landedRows, landed] at stored ⊢
    simp at stored ⊢
    omega
  · simp only [Recorder.unstored, at_, landed] at announced
    simp only [Recorder.unstored, same, drops, Recorder.pending]
    simp only [Recorder.pending] at announced
    omega
  · simp only [Recorder.landedAudits, at_, landed] at audited
    simp only [Recorder.landedAudits, same, audits]
    omega
  · intro id present
    rcases added id present with old | mine
    · exact h.known id old
    · exact .inr (hand.issued id mine)
  · intro row member
    by_contra present
    rcases added _ present with old | mine
    · exact old (h.fresh row member)
    · have distinct := hand.distinct
      rw [List.map_append, ← List.cons_append] at distinct
      exact (List.nodup_append.mp distinct).2.2 _ mine _ (List.mem_map_of_mem member) rfl
  · intro e member
    obtain ⟨row, audit, found, rest⟩ := h.counted e member
    exact ⟨row, audit, kept _ _ found, rest⟩
  · intro other at'
    obtain rfl := Option.some.inj (same.symm.trans at')
    refine { hand with unwritten := nofun, written := ?_ }
    intro found is
    exact Option.some.inj is ▸ written
  · intro impossible
    cases same.symm.trans impossible
  · intro b attempt other is
    exact congrArg some (outcome b attempt other is).symm

omit injective unused in
/-- A change of stage that keeps the batch in hand. -/
theorem Accounted.restage (h : Accounted uuid origin s) {batch : Batch}
    (at_ : s.stage.batch = some batch) (stage : RunStage) (same : stage.batch = some batch)
    (persistenceError : Option WriteFault)
    (outcome : ∀ batch attempt result, stage = .written batch attempt (.ok result) →
      s.landed = some result) :
    Accounted uuid origin { s with stage, persistenceError } := by
  have announced := h.announced
  have audited := h.audited
  simp only [Recorder.unstored, Recorder.landedAudits, at_] at announced audited
  refine { h with announced := ?_, audited := ?_, hand := ?_, idle := ?_, outcome }
  · simp only [Recorder.unstored, same]
    exact announced
  · simp only [Recorder.landedAudits, same]
    exact audited
  · intro other is
    obtain rfl := Option.some.inj (same.symm.trans is)
    exact { h.hand batch at_ with }
  · intro impossible
    cases same.symm.trans impossible

omit injective unused in
theorem Accounted.transact (h : Accounted uuid origin s) (numeric : ℚ → ℚ)
    (instanceId : Option String) (commit : Commit) (processedAt : Instant) :
    Accounted uuid origin (s.transact numeric instanceId commit processedAt) := by
  unfold Recorder.transact
  cases stage : s.stage with
  | writing batch attempt =>
    have at_ : s.stage.batch = some batch := by rw [stage]; rfl
    have hand := h.hand batch at_
    dsimp only
    cases landed : s.landed with
    | none =>
      obtain ⟨database, result, persisted, total, rows, entries⟩ :=
        persist_first numeric processedAt instanceId
          (hand.unwritten landed)
      rw [persisted]
      cases commit with
      | rolledBack =>
        have kept := h.restage at_ (.written batch attempt (.error .sqlAlchemy)) rfl s.persistenceError nofun
        rw [landed] at kept
        exact kept
      | acknowledged =>
        refine h.land at_ landed (.written batch attempt (.ok result)) rfl ?_ total rows entries
        intro _ _ _ same
        cases same
        rfl
      | lost =>
        exact h.land at_ landed (.written batch attempt (.error .sqlAlchemy)) rfl nofun total rows entries
    | some result =>
      rw [persist_again instanceId (hand.written result landed)]
      have lost := h.restage at_ (.written batch attempt (.error .sqlAlchemy)) rfl s.persistenceError nofun
      rw [landed] at lost
      cases commit with
      | rolledBack | lost => exact lost
      | acknowledged =>
        have counted := h.restage at_ (.written batch attempt (.ok result)) rfl s.persistenceError (by
          intro _ _ _ same
          cases same
          exact landed)
        rw [landed] at counted
        exact counted
  | looping | written | sleeping | committed | ended | failed => exact h

omit injective unused in
/-- A batch whose write was acknowledged is counted as its first commit left it. -/
theorem Accounted.count (h : Accounted uuid origin s) {batch : Batch} {attempt : ℕ}
    {result : BatchWriteResult} (at_ : s.stage = .written batch attempt (.ok result)) :
    Accounted uuid origin { s with
      persistenceError := none
      committed := s.committed + batch.receipts.length
      inserted := s.inserted + result.inserted
      duplicates := s.duplicates + result.duplicates
      inFlight := 0
      landed := none
      counted := if batch.receipts.isEmpty then s.counted else s.counted ++ [(batch.batchId, result)]
      stage := .committed } := by
  have landed := h.outcome _ _ _ at_
  have inStage : s.stage.batch = some batch := by rw [at_]; rfl
  have hand := h.hand batch inStage
  have written := hand.written result landed
  have total := written.total
  have conserved := h.conserved
  have divided := h.divided
  have stored := h.stored
  have announced := h.announced
  have audited := h.audited
  rw [hand.flight] at conserved
  simp only [Recorder.landedRows, landed, Option.map_some, Option.getD_some] at stored
  simp only [Recorder.unstored, inStage, landed] at announced
  simp only [Recorder.landedAudits, inStage, landed] at audited
  refine { h with
    conserved := by dsimp only; omega, divided := by dsimp only; omega, stored := ?_
    announced := announced, audited := ?_, counted := ?_, once := ?_, hand := nofun
    idle := fun _ => ⟨rfl, rfl⟩, outcome := nofun }
  · simpa [Recorder.landedRows, Nat.add_assoc] using stored
  · cases empty : batch.receipts.isEmpty <;> simp [Recorder.landedAudits, empty, RunStage.batch] at audited ⊢ <;> omega
  · intro e member
    dsimp only at member
    split at member
    next => exact h.counted e member
    next nonempty =>
      rcases List.mem_append.mp member with old | new
      · exact h.counted e old
      · rw [List.mem_singleton.mp new]
        exact written.audit (by simpa using nonempty)
  · dsimp only
    split
    next => exact h.once
    next =>
      rw [List.map_append]
      refine List.nodup_append.mpr ⟨h.once, by simp, ?_⟩
      rintro id inCounted _ new rfl
      simp only [List.map_cons, List.map_nil, List.mem_singleton] at new
      exact hand.uncounted (new ▸ inCounted)

omit injective unused in
theorem Accounted.resume (h : Accounted uuid origin s) (settings : Settings) :
    Accounted uuid origin (s.resume settings) := by
  unfold Recorder.resume
  cases stage : s.stage with
  | written batch attempt outcome =>
    have at_ : s.stage.batch = some batch := by rw [stage]; rfl
    cases outcome with
    | ok result => exact h.count stage
    | error fault =>
      cases fault with
      | key => exact h.restage at_ (.failed batch .key) rfl s.persistenceError nofun
      | sqlAlchemy =>
        dsimp only
        split
        next => exact h.restage at_ (.failed batch .sqlAlchemy) rfl (some .sqlAlchemy) nofun
        next => exact h.restage at_ (.sleeping batch (attempt + 1)) rfl (some .sqlAlchemy) nofun
  | looping | writing | sleeping | committed | ended | failed => exact h

theorem Accounted.step (h : Accounted uuid origin s) (numeric : ℚ → ℚ) (settings : Settings)
    (instanceId : Option String) (move : RecorderMove) :
    Accounted uuid origin (s.step numeric settings instanceId uuid move) := by
  cases move with
  | offer receipt => exact h.offer settings receipt
  | notice eventType fields now => exact h.notice injective unused eventType fields now
  | streamStatus fields gap now => exact h.streamStatus injective unused fields gap now
  | stop => exact { h with hand := fun batch at_ => { h.hand batch at_ with } }
  | run now => exact h.run injective unused settings now
  | transact commit processedAt => exact h.transact numeric instanceId commit processedAt
  | resume => exact h.resume settings

end identities

end accounts

section results

/-- The recorder's counts against its database, which began as `origin`. -/
structure Balanced (origin : Database) (s : Recorder) : Prop where
  received : s.received = s.committed + s.dropped + s.queue.length + s.inFlight
  committed : s.inserted + s.duplicates = s.committed
  -- An acknowledged batch counts what its first commit did, also when that commit went unnoticed.
  first : ∀ batch attempt result, s.stage = .written batch attempt (.ok result) →
    s.landed = some result
  rows : s.database.marketRows = origin.marketRows + s.inserted + s.landedRows
  -- Each counted batch has the one audit row of its identity, with the numbers counted.
  audit : ∀ e ∈ s.counted, ∃ row audit, s.database.events.get? e.1 = some row ∧
    row.payload = .batch audit ∧ audit.result = e.2
  once : (s.counted.map Prod.fst).Nodup ∧
    s.database.audited = origin.audited + s.counted.length + s.landedAudits
  announced : s.database.announced + s.unstored + s.pending = origin.announced + s.dropped

theorem Recorder.unstored_idle {s : Recorder} (idle : s.stage.batch = none) : s.unstored = 0 := by
  simp [Recorder.unstored, idle]

/-- In every interleaving of offers, notices and the task that writes, whatever its transactions
end with, the counts balance at every suspension point; and with no batch in hand, so unless the
recorder has failed, the stored gap notices and the pending overflow announce every drop. -/
theorem recorder_balances (numeric : ℚ → ℚ) (settings : Settings) (instanceId : Option String)
    (uuid : ℕ → String) (database : Database) (injective : ∀ i j, uuid i = uuid j → i = j)
    (unused : ∀ i, database.events.get? (uuid i) = none) (moves : List RecorderMove) :
    let s := Machine.run (Recorder.step numeric settings instanceId uuid) { database } moves
    Balanced database s ∧ (s.stage.batch = none →
      s.database.announced + s.pending = database.announced + s.dropped) := by
  intro s
  have h : Accounted uuid database s :=
    Machine.run_invariant (fun _ move h => h.step injective unused numeric settings instanceId move)
      (Accounted.initial database) moves
  refine ⟨⟨h.conserved, h.divided, h.outcome, h.stored, h.counted, ⟨h.once, h.audited⟩, h.announced⟩, ?_⟩
  intro idle
  have announced := h.announced
  rw [Recorder.unstored_idle idle] at announced
  exact announced

def emptyDatabase : Database := ⟨.empty, .empty, .empty, .empty, .empty⟩

def tally (n : ℕ) : String := String.ofList (List.replicate n 'a')

theorem tally_injective (i j : ℕ) (same : tally i = tally j) : i = j := by
  have lists := congrArg String.toList same
  simp only [tally, String.toList_ofList] at lists
  simpa using congrArg List.length lists

theorem oneTrade_pos : (0 : ℚ) < 1 := one_pos

def oneTrade : ReceivedStreamEvent where
  event := .trade {
    symbol := "SPY", timestamp := 5, price := 1, size := 1, tradeId := "7"
    pricePositive := oneTrade_pos
    sizePositive := oneTrade_pos }
  receivedAt := 6

/-- A drop, and a batch whose first acknowledgement is lost. -/
def lostRun : List RecorderMove := [
  .offer oneTrade, .offer oneTrade, .run 7, .offer oneTrade,
  .transact .lost 8, .resume, .run 9, .transact .acknowledged 10, .resume]

def lostRecorder : Recorder :=
  Machine.run (Recorder.step id { queueCapacity := 1 } none tally) { database := emptyDatabase } lostRun

theorem lostRun_balances :
    (lostRecorder.committed = 1 ∧ lostRecorder.inserted = 1 ∧ lostRecorder.dropped = 1 ∧
        lostRecorder.database.announced = 1 ∧ lostRecorder.database.audited = 1) ∧
      Balanced emptyDatabase lostRecorder :=
  ⟨by decide +kernel, (recorder_balances id { queueCapacity := 1 } none tally emptyDatabase
    tally_injective (fun _ => rfl) lostRun).1⟩

end results

end TradeAgent.Shadow
