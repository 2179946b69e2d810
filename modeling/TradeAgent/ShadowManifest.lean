import TradeAgent.Library.Machine
import TradeAgent.ShadowDataset

/-! The manifest and the byte counter say exactly what the tables of the dataset hold, whoever
calls, however often, and whether or not the caller hears of its commit. -/
namespace TradeAgent.Dataset

open Confirmation (Codec)

variable {fl : Floats} {ε l : Type} (codec : Codec) (doc : Documents fl ε l)
  (protocol : ShadowDatasetProtocol)

section rows

/-- The primary key of a row, and whose table it is in. -/
inductive RowKey where
  | evaluation (id : String)
  | label (id : String) (horizonSeconds : ℤ)
  deriving DecidableEq

def Row.key : Row ε l → RowKey
  | .evaluation v => .evaluation v.evaluationId
  | .label v => .label v.evaluationId v.horizonSeconds

/-- The tables once the row is in its own. -/
def Row.place (row : Row ε l) (s : Store ε l) : Store ε l :=
  match row with
  | .evaluation v => { s with evaluations := s.evaluations.set v.evaluationId v }
  | .label v => { s with labels := s.labels.set (v.evaluationId, v.horizonSeconds) v }

/-- The charges of the rows stored. -/
def charges (s : Store ε l) : ℕ :=
  (s.evaluations.values.map fun v => (Row.evaluation v).charge doc).sum +
    (s.labels.values.map fun v => (Row.label v).charge doc).sum

/-- The charges of those rows of a call that it has to store. -/
def unstored (s : Store ε l) : List (Row ε l) → List RowKey → ℕ
  | [], _ => 0
  | row :: rest, seen =>
    (if (stored doc row s).isSome ∨ row.key ∈ seen then 0 else row.charge doc) +
      unstored s rest (row.key :: seen)

variable {doc protocol} {row other : Row ε l} {s t : Store ε l} {bytes amount total : ℕ}

theorem insertRow_place (inserted : insertRow row s = .ok t) : t = row.place s := by
  cases row with
  | evaluation v =>
    simp only [insertRow, insertEvaluation] at inserted
    split at inserted
    next => cases inserted
    next => cases inserted; rfl
  | label v =>
    simp only [insertRow, insertLabel] at inserted
    split at inserted
    next => cases inserted
    next => cases inserted; rfl

theorem stored_key (same : row.key = other.key) : stored doc row s = stored doc other s := by
  cases row <;> cases other <;> simp only [Row.key, reduceCtorEq, RowKey.evaluation.injEq,
    RowKey.label.injEq] at same
  next v w => simp only [stored, same]
  next v w => simp only [stored, same]

theorem stored_place (row other : Row ε l) (s : Store ε l) :
    stored doc other (row.place s) =
      if row.key = other.key then some (row.text doc) else stored doc other s := by
  cases row with
  | evaluation v =>
    cases other with
    | evaluation w =>
      simp only [stored, Row.place, Row.key, RowKey.evaluation.injEq, Dict.get?_set, Row.text]
      split <;> rfl
    | label w => rfl
  | label v =>
    cases other with
    | evaluation w => rfl
    | label w =>
      simp only [stored, Row.place, Row.key, RowKey.label.injEq, Dict.get?_set, Prod.mk.injEq, Row.text]
      split <;> rfl

/-- A row that no row of its key preceded adds its own charge. -/
theorem charges_place (absent : stored doc row s = none) :
    charges doc (row.place s) = charges doc s + row.charge doc := by
  cases row with
  | evaluation v =>
    have vacant : s.evaluations.get? v.evaluationId = none := by
      simpa [stored] using absent
    simp only [charges, Row.place, Dict.values_set_absent vacant, List.map_append, List.sum_append,
      List.map_cons, List.map_nil, List.sum_singleton]
    omega
  | label v =>
    have vacant : s.labels.get? (v.evaluationId, v.horizonSeconds) = none := by
      simpa [stored] using absent
    simp only [charges, Row.place, Dict.values_set_absent vacant, List.map_append, List.sum_append,
      List.map_cons, List.map_nil, List.sum_singleton]
    omega

/-- A row is skipped because it is stored already, or placed within the budget. -/
theorem writeRow_ok (written : writeRow doc protocol bytes row s amount = .ok (t, total)) :
    stored doc row s = some (row.text doc) ∧ t = s ∧ total = amount ∨
    stored doc row s = none ∧ t = row.place s ∧ total = amount + row.charge doc ∧
      bytes + total ≤ protocol.maximumDatasetBytes := by
  unfold writeRow at written
  split at written
  next previous found =>
    split at written
    next => cases written
    next same =>
      cases written
      rw [not_not] at same
      exact .inl ⟨same ▸ found, rfl, rfl⟩
  next absent =>
    split at written
    next => cases written
    next affordable =>
      cases inserted : insertRow row s with
      | error fault => rw [inserted] at written; cases written
      | ok placed =>
        rw [inserted] at written
        cases written
        exact .inr ⟨absent, insertRow_place inserted, rfl, by omega⟩

/-- What `writeRows` leaves of the other tables. -/
structure SameLinks (s t : Store ε l) : Prop where
  lock : t.lock = s.lock
  dataset : t.dataset = s.dataset
  marketBatches : t.marketBatches = s.marketBatches
  sourceLinks : t.sourceLinks = s.sourceLinks

theorem place_sameLinks (row : Row ε l) (s : Store ε l) : SameLinks s (row.place s) := by
  cases row <;> exact ⟨rfl, rfl, rfl, rfl⟩

theorem SameLinks.trans {u : Store ε l} (first : SameLinks s t) (second : SameLinks t u) :
    SameLinks s u where
  lock := second.lock.trans first.lock
  dataset := second.dataset.trans first.dataset
  marketBatches := second.marketBatches.trans first.marketBatches
  sourceLinks := second.sourceLinks.trans first.sourceLinks

/-- All that holds of a call's rows once they are through. -/
structure RowsWritten (doc : Documents fl ε l) (protocol : ShadowDatasetProtocol)
    (rows : List (Row ε l)) (bytes amount : ℕ) (s t : Store ε l) (total : ℕ) : Prop where
  links : SameLinks s t
  keeps : ∀ row text, stored doc row s = some text → stored doc row t = some text
  stores : ∀ row ∈ rows, stored doc row t = some (row.text doc)
  charged : charges doc t + amount = charges doc s + total
  budget : total = amount ∨ bytes + total ≤ protocol.maximumDatasetBytes

theorem writeRows_ok {rows : List (Row ε l)}
    (written : writeRows doc protocol bytes rows s amount = .ok (t, total)) :
    RowsWritten doc protocol rows bytes amount s t total := by
  induction rows generalizing s amount with
  | nil =>
    cases written
    exact ⟨⟨rfl, rfl, rfl, rfl⟩, fun _ _ found => found, (by simp), rfl, .inl rfl⟩
  | cons row rest ih =>
    rw [writeRows] at written
    cases first : writeRow doc protocol bytes row s amount with
    | error fault => rw [first] at written; cases written
    | ok pair =>
      obtain ⟨placed, charged⟩ := pair
      rw [first] at written
      have later := ih written
      rcases writeRow_ok first with ⟨found, rfl, rfl⟩ | ⟨absent, rfl, rfl, affordable⟩
      · refine ⟨later.links, later.keeps, ?_, later.charged, later.budget⟩
        intro other member
        rcases List.mem_cons.mp member with rfl | inRest
        · exact later.keeps _ _ found
        · exact later.stores other inRest
      · refine ⟨(place_sameLinks row s).trans later.links, ?_, ?_, ?_, ?_⟩
        · intro other text found
          apply later.keeps
          rw [stored_place, if_neg]
          · exact found
          · intro same
            rw [stored_key same] at absent
            cases absent.symm.trans found
        · intro other member
          rcases List.mem_cons.mp member with rfl | inRest
          · apply later.keeps
            rw [stored_place, if_pos rfl]
          · exact later.stores other inRest
        · have sum := later.charged
          rw [charges_place absent] at sum
          omega
        · rcases later.budget with rfl | within
          · exact .inr affordable
          · exact .inr within

/-- Rows stored already change nothing and cost nothing. -/
theorem writeRows_again {rows : List (Row ε l)}
    (all : ∀ row ∈ rows, stored doc row s = some (row.text doc)) :
    writeRows doc protocol bytes rows s amount = .ok (s, amount) := by
  induction rows with
  | nil => rfl
  | cons row rest ih =>
    have found := all row List.mem_cons_self
    have skipped : writeRow doc protocol bytes row s amount = .ok (s, amount) := by
      unfold writeRow
      rw [found]
      simp
    rw [writeRows, skipped]
    exact ih fun row member => all row (List.mem_cons_of_mem _ member)

/-- The rows of a call charge what the call has to store. -/
theorem writeRows_amount {rows : List (Row ε l)} (origin : Store ε l) (seen : List RowKey)
    (known : ∀ row, (stored doc row s).isSome ↔ (stored doc row origin).isSome ∨ row.key ∈ seen)
    (written : writeRows doc protocol bytes rows s amount = .ok (t, total)) :
    total = amount + unstored doc origin rows seen := by
  induction rows generalizing s amount seen with
  | nil =>
    cases written
    rfl
  | cons row rest ih =>
    rw [writeRows] at written
    cases first : writeRow doc protocol bytes row s amount with
    | error fault => rw [first] at written; cases written
    | ok pair =>
      obtain ⟨placed, charged⟩ := pair
      rw [first] at written
      rcases writeRow_ok first with ⟨found, rfl, rfl⟩ | ⟨absent, rfl, rfl, affordable⟩
      · have before := (known row).mp (by simp [found])
        have later := ih (row.key :: seen) (by
          intro other
          rw [known other, List.mem_cons]
          constructor
          · rintro (held | earlier)
            · exact .inl held
            · exact .inr (.inr earlier)
          · rintro (held | same | earlier)
            · exact .inl held
            · rw [stored_key same]
              rw [same]
              exact before
            · exact .inr earlier) written
        rw [unstored, if_pos before, later, zero_add]
      · have fresh : ¬((stored doc row origin).isSome ∨ row.key ∈ seen) := by
          rw [← known row, absent]
          simp
        have later := ih (row.key :: seen) (by
          intro other
          rw [stored_place, List.mem_cons]
          by_cases same : row.key = other.key
          · simp [same]
          · rw [if_neg same, known other]
            simp [Ne.symm same]) written
        rw [unstored, if_neg fresh, later]
        omega

/-- A row whose key is stored with another payload stops the call. -/
theorem writeRows_conflict {rows : List (Row ε l)} {previous : String} (member : row ∈ rows)
    (found : stored doc row s = some previous) (differs : previous ≠ row.text doc) :
    ∃ fault, writeRows doc protocol bytes rows s amount = .error fault := by
  cases written : writeRows doc protocol bytes rows s amount with
  | error fault => exact ⟨fault, rfl⟩
  | ok pair =>
    obtain ⟨t, total⟩ := pair
    have done := writeRows_ok written
    have kept := done.keeps row previous found
    rw [done.stores row member] at kept
    exact absurd (Option.some.inj kept).symm differs

end rows

section manifest

def tapeIdentity (tape : List (TapeEvent fl)) : String := codec.sha256 (tapeBody tape)

def tapeRaw (tape : List (TapeEvent fl)) : ByteArray := codec.compress (tapeBody tape)

/-- The hash chain over batch identities. -/
def foldRoot (root : String) (identities : List String) : String :=
  identities.foldl (nextRoot codec) root

/-- What the dataset row and the links say of the tapes linked, in their order. `origin` holds the
batches stored before the dataset was opened. -/
structure Exact (origin : Dict String MarketBatch) (s : Store ε l) (row : DatasetRow)
    (tapes : List (List (TapeEvent fl))) : Prop where
  identities : s.sourceLinks.keys = tapes.map (tapeIdentity codec)
  batches : row.sourceBatches = tapes.length
  numbered : s.sourceLinks.values.map SourceLink.sequence = List.range' 1 row.sourceBatches
  roots : ∀ (i : ℕ) (link : SourceLink), s.sourceLinks.values[i]? = some link →
    link.root = foldRoot codec protocol.identity (s.sourceLinks.keys.take (i + 1))
  root : row.sourceRoot = foldRoot codec protocol.identity s.sourceLinks.keys
  bytes : row.storedBytes =
    (tapes.map fun tape => (tapeRaw codec tape).size).sum + charges doc s
  budget : row.storedBytes ≤ protocol.maximumDatasetBytes
  raw : ∀ tape ∈ tapes, ∃ batch, s.marketBatches.get? (tapeIdentity codec tape) = some batch ∧
    (origin.get? (tapeIdentity codec tape) = none → batch.raw = tapeRaw codec tape)
  others : ∀ identity, s.marketBatches.get? identity ≠ none →
    origin.get? identity ≠ none ∨ identity ∈ s.sourceLinks.keys

/-- The tables of a dataset that is not there yet. -/
structure Unopened (origin : Dict String MarketBatch) (s : Store ε l) : Prop where
  marketBatches : s.marketBatches = origin
  sourceLinks : s.sourceLinks = .empty
  evaluations : s.evaluations = .empty
  labels : s.labels = .empty

def Manifest (origin : Dict String MarketBatch) (s : Store ε l) : Prop :=
  match s.dataset with
  | none => Unopened origin s
  | some row => ∃ tapes : List (List (TapeEvent fl)), Exact codec doc protocol origin s row tapes

variable {codec doc protocol} {origin : Dict String MarketBatch} {s t : Store ε l} {row : DatasetRow}
  {tapes : List (List (TapeEvent fl))}

theorem write_ok {owner : String} {checkedAt : Instant} {rows : List (Row ε l)}
    (written : write doc protocol owner checkedAt rows s = .ok t) :
    ∃ row placed amount, s.dataset = some row ∧
      writeRows doc protocol row.storedBytes rows s 0 = .ok (placed, amount) ∧
      t = { placed with dataset := some { row with storedBytes := row.storedBytes + amount } } := by
  unfold write at written
  cases held : lease owner checkedAt s with
  | error fault => rw [held] at written; cases written
  | ok _ =>
    rw [held] at written
    cases found : s.dataset with
    | none => simp [datasetRow, found, bind, Except.bind] at written
    | some row =>
      cases placed : writeRows doc protocol row.storedBytes rows s 0 with
      | error fault => simp [datasetRow, found, placed, bind, Except.bind] at written
      | ok pair =>
        simp only [datasetRow, found, placed, bind, Except.bind, pure, Except.pure,
          Except.ok.injEq] at written
        exact ⟨row, pair.1, pair.2, rfl, placed, written.symm⟩

/-- A tape is linked already, or it takes the next place in the chain and its bytes. -/
theorem persistTape_ok {owner : String} {checkedAt now : Instant} {tape : List (TapeEvent fl)}
    (persisted : persistTape codec protocol owner checkedAt tape now s = .ok t) :
    ∃ row, s.dataset = some row ∧
      (s.sourceLinks.get? (tapeIdentity codec tape) ≠ none ∧ t = s ∨
      s.sourceLinks.get? (tapeIdentity codec tape) = none ∧
        row.storedBytes + (tapeRaw codec tape).size ≤ protocol.maximumDatasetBytes ∧
        ∃ batch : MarketBatch, batch.raw = tapeRaw codec tape ∧
        t = { s with
          marketBatches := s.marketBatches.setDefault (tapeIdentity codec tape) batch
          sourceLinks := s.sourceLinks.set (tapeIdentity codec tape)
            ⟨now, row.sourceBatches + 1, nextRoot codec row.sourceRoot (tapeIdentity codec tape)⟩
          dataset := some { row with
            sourceRoot := nextRoot codec row.sourceRoot (tapeIdentity codec tape)
            sourceBatches := row.sourceBatches + 1
            storedBytes := row.storedBytes + (tapeRaw codec tape).size } }) := by
  unfold persistTape at persisted
  cases held : lease owner checkedAt s with
  | error fault => rw [held] at persisted; cases persisted
  | ok _ =>
    rw [held] at persisted
    cases found : s.dataset with
    | none => simp [datasetRow, found, bind, Except.bind] at persisted
    | some row =>
      refine ⟨row, rfl, ?_⟩
      simp only [datasetRow, found, bind, Except.bind, pure, Except.pure, throw, throwThe,
        MonadExceptOf.throw] at persisted
      split at persisted
      next linked =>
        cases persisted
        exact .inl ⟨Option.isSome_iff_ne_none.mp linked, rfl⟩
      next absent =>
        split at persisted
        next => cases persisted
        next affordable =>
          cases low : minimum (tape.map TapeEvent.exchangeAtNs) with
          | error fault => rw [low] at persisted; cases persisted
          | ok first =>
            cases high : maximum (tape.map TapeEvent.exchangeAtNs) with
            | error fault => rw [low, high] at persisted; cases persisted
            | ok last =>
              rw [low, high] at persisted
              dsimp only at persisted
              split at persisted
              next => cases persisted
              next =>
                cases persisted
                exact .inr ⟨by simpa [Option.isSome_iff_ne_none, tapeIdentity] using absent,
                  not_lt.mp affordable, ⟨now, tape.length, first, last, tapeRaw codec tape⟩, rfl, rfl⟩

/-- Neither the lock nor the other columns of the dataset row matter. -/
theorem Exact.moved (h : Exact codec doc protocol origin s row tapes) (lock : Option WorkerLock)
    (dataset : Option DatasetRow) :
    Exact codec doc protocol origin { s with lock, dataset } row tapes := { h with }

theorem Manifest.locked (h : Manifest codec doc protocol origin s) (lock : Option WorkerLock) :
    Manifest codec doc protocol origin { s with lock } := by
  unfold Manifest at h ⊢
  dsimp only
  cases found : s.dataset with
  | none =>
    rw [found] at h
    exact { h with }
  | some row =>
    rw [found] at h
    obtain ⟨tapes, exact_⟩ := h
    refine ⟨tapes, ?_⟩
    rw [← found]
    exact exact_.moved lock s.dataset

theorem Manifest.frozen (h : Manifest codec doc protocol origin s) {now : Instant}
    (frozen : freezeProtocol protocol now s = .ok t) : Manifest codec doc protocol origin t := by
  unfold freezeProtocol at frozen
  cases found : s.dataset with
  | some row =>
    rw [found] at frozen
    dsimp only at frozen
    split at frozen
    next => cases frozen
    next => cases frozen; exact h
  | none =>
    rw [found] at frozen
    dsimp only at frozen
    split at frozen
    next => cases frozen
    next =>
      split at frozen
      next => cases frozen
      next =>
        cases frozen
        rw [Manifest, found] at h
        refine ⟨[], ?_⟩
        -- The row starts with no batch, no byte and the protocol's own identity as its root.
        exact {
          identities := by simp [h.sourceLinks, Dict.keys, Dict.empty]
          batches := rfl
          numbered := by simp [h.sourceLinks, Dict.values, Dict.empty]
          roots := by simp [h.sourceLinks, Dict.values, Dict.empty]
          root := by simp [h.sourceLinks, Dict.keys, Dict.empty, foldRoot]
          bytes := by simp [h.evaluations, h.labels, charges, Dict.values, Dict.empty]
          budget := Nat.zero_le _
          raw := nofun
          others := by
            intro identity present
            exact .inl (h.marketBatches ▸ present) }

theorem Manifest.quality (h : Manifest codec doc protocol origin s) {owner : String}
    {checkedAt now : Instant} {stopReason sealed : Bool}
    (updated : updateQuality owner checkedAt stopReason sealed now s = .ok t) :
    Manifest codec doc protocol origin t := by
  unfold updateQuality at updated
  cases held : lease owner checkedAt s with
  | error fault => rw [held] at updated; cases updated
  | ok _ =>
    rw [held] at updated
    cases updated
    cases found : s.dataset with
    | none =>
      rw [Manifest, found] at h
      rw [Manifest]
      exact { h with }
    | some row =>
      rw [Manifest, found] at h
      obtain ⟨tapes, exact_⟩ := h
      exact ⟨tapes, { exact_ with }⟩

theorem Manifest.written (h : Manifest codec doc protocol origin s) {owner : String}
    {checkedAt : Instant} {rows : List (Row ε l)}
    (written : write doc protocol owner checkedAt rows s = .ok t) :
    Manifest codec doc protocol origin t := by
  obtain ⟨row, placed, amount, found, through, rfl⟩ := write_ok written
  rw [Manifest, found] at h
  obtain ⟨tapes, exact_⟩ := h
  have done := writeRows_ok through
  have bytes := exact_.bytes
  have charged := done.charged
  have budget := exact_.budget
  refine ⟨tapes, ?_⟩
  exact {
    identities := done.links.sourceLinks ▸ exact_.identities
    batches := exact_.batches
    numbered := done.links.sourceLinks ▸ exact_.numbered
    roots := done.links.sourceLinks ▸ exact_.roots
    root := done.links.sourceLinks ▸ exact_.root
    bytes := by
      show row.storedBytes + amount = _ + charges doc placed
      omega
    budget := by
      show row.storedBytes + amount ≤ _
      rcases done.budget with rfl | within <;> omega
    raw := done.links.marketBatches ▸ exact_.raw
    others := by
      show ∀ identity, placed.marketBatches.get? identity ≠ none → _ ∨ identity ∈ placed.sourceLinks.keys
      rw [done.links.marketBatches, done.links.sourceLinks]
      exact exact_.others }

theorem Manifest.persisted (h : Manifest codec doc protocol origin s) {owner : String}
    {checkedAt now : Instant} {tape : List (TapeEvent fl)}
    (persisted : persistTape codec protocol owner checkedAt tape now s = .ok t) :
    Manifest codec doc protocol origin t := by
  obtain ⟨row, found, ⟨-, rfl⟩ | ⟨absent, affordable, batch, raw, rfl⟩⟩ := persistTape_ok persisted
  · exact h
  rw [Manifest, found] at h
  obtain ⟨tapes, exact_⟩ := h
  have fresh : tapeIdentity codec tape ∉ s.sourceLinks.keys := Dict.get?_none_iff.mp absent
  have keys : ∀ link, (s.sourceLinks.set (tapeIdentity codec tape) link).keys =
      s.sourceLinks.keys ++ [tapeIdentity codec tape] := by
    intro link
    rw [Dict.keys_set, if_neg fresh]
  have length : s.sourceLinks.keys.length = s.sourceLinks.values.length := by
    simp [Dict.keys, Dict.values]
  have places : s.sourceLinks.keys.length = row.sourceBatches := by
    rw [exact_.identities, exact_.batches, List.length_map]
  refine ⟨tapes ++ [tape], ?_⟩
  exact {
    identities := by
      dsimp only
      rw [keys, exact_.identities, List.map_append, List.map_cons, List.map_nil]
    batches := by simp [exact_.batches]
    numbered := by
      dsimp only
      rw [Dict.values_set_absent absent, List.map_append, exact_.numbered, List.range'_concat]
      simp [Nat.add_comm]
    roots := by
      intro i link here
      dsimp only at here ⊢
      rw [keys]
      rw [Dict.values_set_absent absent] at here
      by_cases last : i < s.sourceLinks.values.length
      · rw [List.getElem?_append_left last] at here
        rw [exact_.roots i link here, List.take_append_of_le_length (by omega)]
      · rw [List.getElem?_append_right (by omega)] at here
        have whole : s.sourceLinks.keys.length + 1 ≤ i + 1 := by omega
        rw [List.take_of_length_le (by simpa using whole)]
        have only : link = ⟨now, row.sourceBatches + 1,
            nextRoot codec row.sourceRoot (tapeIdentity codec tape)⟩ := by
          cases rest : i - s.sourceLinks.values.length with
          | zero =>
            rw [rest] at here
            exact (Option.some.inj here).symm
          | succ n => simp [rest] at here
        rw [only, exact_.root]
        simp [foldRoot]
    root := by
      dsimp only
      rw [keys, exact_.root]
      simp [foldRoot]
    bytes := by
      have bytes := exact_.bytes
      rw [List.map_append, List.sum_append]
      show row.storedBytes + (tapeRaw codec tape).size =
        _ + ([tape].map fun tape => (tapeRaw codec tape).size).sum + charges doc s
      simp only [List.map_cons, List.map_nil, List.sum_singleton]
      omega
    budget := affordable
    raw := by
      intro other member
      dsimp only
      rw [Dict.get?_setDefault]
      rcases List.mem_append.mp member with before | here
      · obtain ⟨old, stored, same⟩ := exact_.raw other before
        exact ⟨old, by split <;> simp_all, same⟩
      · rw [List.mem_singleton] at here
        subst here
        cases stored : s.marketBatches.get? (tapeIdentity codec other) with
        | none => exact ⟨batch, by simp, fun _ => raw⟩
        | some old =>
          -- A batch nobody linked was there before the dataset was.
          have known := (exact_.others _ (by simp [stored])).resolve_right fresh
          exact ⟨old, by simp, fun none => absurd none known⟩
    others := by
      intro identity present
      dsimp only at present ⊢
      rw [keys, List.mem_append, List.mem_singleton]
      by_cases same : tapeIdentity codec tape = identity
      · exact .inr (.inr same.symm)
      · rw [Dict.get?_setDefault] at present
        rcases exact_.others identity (by simpa [same] using present) with before | linked
        · exact .inl before
        · exact .inr (.inl linked) }

/-- One act keeps the manifest exact. -/
theorem Manifest.step (h : Manifest codec doc protocol origin s) (act : Act fl ε l) :
    Manifest codec doc protocol origin (step codec doc protocol s act) := by
  have settled : ∀ (attempt : Except DatasetFault (Store ε l)) (committed : Bool),
      (∀ t, attempt = .ok t → Manifest codec doc protocol origin t) →
      Manifest codec doc protocol origin (settle s committed attempt) := by
    intro attempt committed lands
    cases attempt with
    | error fault => exact h
    | ok t =>
      cases committed with
      | false => exact h
      | true => exact lands t rfl
  cases act with
  | acquire owner now staleAfter =>
    simp only [Dataset.step, acquireWorkerLock]
    split
    next => exact h.locked _
    next =>
      split
      next => exact h
      next => exact h.locked _
  | refresh owner now =>
    simp only [Dataset.step, refreshWorkerLock]
    split
    next => exact h
    next =>
      split
      next => exact h.locked _
      next => exact h
  | release owner =>
    simp only [Dataset.step, releaseWorkerLock]
    split
    next => exact h
    next =>
      split
      next => exact h.locked _
      next => exact h
  | freeze now => exact settled _ _ fun t frozen => h.frozen frozen
  | quality owner checkedAt stopReason sealed now =>
    exact settled _ _ fun t updated => h.quality updated
  | call call committed =>
    apply settled
    intro t done
    cases call with
    | write owner checkedAt rows => exact h.written done
    | persistTape owner checkedAt tape now => exact h.persisted done

end manifest

section repeated

/-- The same call, by whatever owner and at whatever time. -/
def Call.same : Call fl ε l → Call fl ε l → Prop
  | .write _ _ rows, .write _ _ others => rows = others
  | .persistTape _ _ tape _, .persistTape _ _ other _ => tape = other
  | _, _ => False

/-- Some row meets another payload under its key, in the tables or in the call. -/
def Conflicts (rows : List (Row ε l)) (s : Store ε l) : Prop :=
  (∃ row ∈ rows, ∃ previous, stored doc row s = some previous ∧ previous ≠ row.text doc) ∨
  ∃ row ∈ rows, ∃ other ∈ rows, row.key = other.key ∧ row.text doc ≠ other.text doc

/-- A call that conflicts, or whose new rows or new tape do not fit. -/
def Refused (s : Store ε l) : Call fl ε l → Prop
  | .write _ _ rows => Conflicts doc rows s ∨ ∃ row, s.dataset = some row ∧
      protocol.maximumDatasetBytes < row.storedBytes + unstored doc s rows []
  | .persistTape _ _ tape _ => s.sourceLinks.get? (tapeIdentity codec tape) = none ∧
      ∃ row, s.dataset = some row ∧
        protocol.maximumDatasetBytes < row.storedBytes + (tapeRaw codec tape).size

/-- A call's rows are stored, or its tape is linked. -/
def Landed (s : Store ε l) : Call fl ε l → Prop
  | .write _ _ rows => ∀ row ∈ rows, stored doc row s = some (row.text doc)
  | .persistTape _ _ tape _ => s.sourceLinks.get? (tapeIdentity codec tape) ≠ none

/-- What no act takes back. -/
structure Keeps (s t : Store ε l) : Prop where
  rows : ∀ row text, stored doc row s = some text → stored doc row t = some text
  links : ∀ identity, s.sourceLinks.get? identity ≠ none → t.sourceLinks.get? identity ≠ none

variable {codec doc protocol} {origin : Dict String MarketBatch} {s t u : Store ε l}
  {call again : Call fl ε l}

theorem Keeps.trans (first : Keeps doc s t) (second : Keeps doc t u) : Keeps doc s u where
  rows row text found := second.rows row text (first.rows row text found)
  links identity linked := second.links identity (first.links identity linked)

/-- Rows and links are in tables that the other acts leave alone. -/
theorem Keeps.tables (evaluations : t.evaluations = s.evaluations) (labels : t.labels = s.labels)
    (links : t.sourceLinks = s.sourceLinks) : Keeps doc s t where
  rows row text found := by cases row <;> simpa only [stored, evaluations, labels] using found
  links identity linked := links ▸ linked

theorem keeps_write {owner : String} {checkedAt : Instant} {rows : List (Row ε l)}
    (written : write doc protocol owner checkedAt rows s = .ok t) : Keeps doc s t := by
  obtain ⟨row, placed, amount, -, through, rfl⟩ := write_ok written
  have done := writeRows_ok through
  have first : Keeps doc s placed := ⟨done.keeps, fun _ linked => done.links.sourceLinks ▸ linked⟩
  exact first.trans (.tables rfl rfl rfl)

theorem keeps_persistTape {owner : String} {checkedAt now : Instant} {tape : List (TapeEvent fl)}
    (persisted : persistTape codec protocol owner checkedAt tape now s = .ok t) :
    Keeps doc s t := by
  obtain ⟨row, -, ⟨-, rfl⟩ | ⟨-, -, batch, -, rfl⟩⟩ := persistTape_ok persisted
  · exact .tables rfl rfl rfl
  · refine ⟨fun other text found => by cases other <;> exact found, ?_⟩
    intro identity linked
    dsimp only
    rw [Dict.get?_set]
    split
    next => simp
    next => exact linked

theorem keeps_step (s : Store ε l) (act : Act fl ε l) :
    Keeps doc s (step codec doc protocol s act) := by
  have same : Keeps doc s s := .tables rfl rfl rfl
  have settled : ∀ (attempt : Except DatasetFault (Store ε l)) (committed : Bool),
      (∀ t, attempt = .ok t → Keeps doc s t) → Keeps doc s (settle s committed attempt) := by
    intro attempt committed lands
    cases attempt with
    | error fault => exact same
    | ok t =>
      cases committed with
      | false => exact same
      | true => exact lands t rfl
  cases act with
  | acquire owner now staleAfter =>
    simp only [step, acquireWorkerLock]
    split
    next => exact .tables rfl rfl rfl
    next => split <;> exact .tables rfl rfl rfl
  | refresh owner now =>
    simp only [step, refreshWorkerLock]
    split
    next => exact same
    next => split <;> exact .tables rfl rfl rfl
  | release owner =>
    simp only [step, releaseWorkerLock]
    split
    next => exact same
    next => split <;> exact .tables rfl rfl rfl
  | freeze now =>
    apply settled
    intro t frozen
    unfold freezeProtocol at frozen
    split at frozen
    next =>
      split at frozen
      next => cases frozen
      next => cases frozen; exact same
    next =>
      split at frozen
      next => cases frozen
      next =>
        split at frozen
        next => cases frozen
        next => cases frozen; exact .tables rfl rfl rfl
  | quality owner checkedAt stopReason sealed now =>
    apply settled
    intro t updated
    unfold updateQuality at updated
    cases held : lease owner checkedAt s with
    | error fault => rw [held] at updated; cases updated
    | ok _ =>
      rw [held] at updated
      cases updated
      exact .tables rfl rfl rfl
  | call call committed =>
    apply settled
    intro t done
    cases call with
    | write owner checkedAt rows => exact keeps_write done
    | persistTape owner checkedAt tape now => exact keeps_persistTape done

theorem keeps_run (s : Store ε l) (acts : List (Act fl ε l)) :
    Keeps doc s (Machine.run (step codec doc protocol) s acts) :=
  Machine.run_invariant (fun t act (kept : Keeps doc s t) => kept.trans (keeps_step t act))
    (.tables rfl rfl rfl) acts

theorem landed_of_ok (done : call.attempt codec doc protocol s = .ok t) :
    Landed codec doc t call := by
  cases call with
  | write owner checkedAt rows =>
    obtain ⟨row, placed, amount, -, through, rfl⟩ := write_ok done
    intro row member
    have here := (writeRows_ok through).stores row member
    cases row <;> exact here
  | persistTape owner checkedAt tape now =>
    obtain ⟨row, -, ⟨linked, rfl⟩ | ⟨-, -, batch, -, rfl⟩⟩ := persistTape_ok done
    · exact linked
    · simp [Landed]

theorem Landed.kept (landed : Landed codec doc s call) (kept : Keeps doc s t) :
    Landed codec doc t call := by
  cases call with
  | write owner checkedAt rows => exact fun row member => kept.rows row _ (landed row member)
  | persistTape owner checkedAt tape now => exact kept.links _ landed

/-- What a call stored makes the same call change nothing. -/
theorem again_same (landed : Landed codec doc u call) (repeats : again.same call) (committed : Bool) :
    step codec doc protocol u (.call again committed) = u := by
  have settled : (∀ v, again.attempt codec doc protocol u = .ok v → v = u) →
      settle u committed (again.attempt codec doc protocol u) = u := by
    intro lands
    cases outcome : again.attempt codec doc protocol u with
    | error fault => rfl
    | ok v =>
      cases committed with
      | false => rfl
      | true => exact lands v outcome
  apply settled
  intro v outcome
  cases call with
  | write owner checkedAt rows =>
    cases again with
    | persistTape => cases repeats
    | write other later others =>
      cases (repeats : others = rows)
      obtain ⟨row, placed, total, found, unchanged, rfl⟩ := write_ok outcome
      rw [writeRows_again landed] at unchanged
      cases unchanged
      rw [Nat.add_zero]
      show { u with dataset := some row } = u
      rw [← found]
  | persistTape owner checkedAt tape now =>
    cases again with
    | write => cases repeats
    | persistTape other later same at_ =>
      cases (repeats : same = tape)
      obtain ⟨row, -, ⟨-, unchanged⟩ | ⟨absent, -⟩⟩ := persistTape_ok outcome
      · exact unchanged
      · exact absurd absent landed

theorem refused_error (h : Manifest codec doc protocol origin s) (refused : Refused codec doc protocol s call) :
    ∃ fault, call.attempt codec doc protocol s = .error fault := by
  cases outcome : call.attempt codec doc protocol s with
  | error fault => exact ⟨fault, rfl⟩
  | ok t =>
    exfalso
    cases call with
    | write owner checkedAt rows =>
      obtain ⟨row, placed, amount, found, through, -⟩ := write_ok outcome
      rcases refused with conflict | ⟨same, held, exceeds⟩
      · rcases conflict with ⟨row, member, previous, here, differs⟩ | ⟨row, member, other, inside, same, differs⟩
        · obtain ⟨fault, failed⟩ := writeRows_conflict member here differs
          cases through.symm.trans failed
        · have done := writeRows_ok through
          have first := done.stores row member
          rw [stored_key same, done.stores other inside] at first
          exact differs (Option.some.inj first).symm
      · rw [found] at held
        cases held
        have amounts := writeRows_amount s [] (by simp) through
        rw [Manifest, found] at h
        obtain ⟨tapes, exact_⟩ := h
        have budget := exact_.budget
        rcases (writeRows_ok through).budget with none | within <;> omega
    | persistTape owner checkedAt tape now =>
      obtain ⟨absent, same, held, exceeds⟩ := refused
      obtain ⟨row, found, ⟨linked, -⟩ | ⟨-, affordable, -⟩⟩ := persistTape_ok outcome
      · exact linked absent
      · rw [found] at held
        cases held
        omega

end repeated

/-- After any acts the manifest is exact; what a call stored stays, so that the same call again
changes nothing; and a refused call changes nothing. -/
theorem manifest_exact (lock : Option WorkerLock) (origin : Dict String MarketBatch)
    (acts : List (Act fl ε l)) :
    let start : Store ε l := { lock, marketBatches := origin }
    let s := Machine.run (step codec doc protocol) start acts
    Manifest codec doc protocol origin s ∧
    (∀ call t later, call.attempt codec doc protocol s = .ok t →
      let u := Machine.run (step codec doc protocol) t later
      Landed codec doc u call ∧
      ∀ again committed, again.same call →
        step codec doc protocol u (.call again committed) = u) ∧
    ∀ call committed, Refused codec doc protocol s call →
      step codec doc protocol s (.call call committed) = s := by
  intro start s
  have opening : Manifest codec doc protocol origin start := ⟨rfl, rfl, rfl, rfl⟩
  have h : Manifest codec doc protocol origin s :=
    Machine.run_invariant (fun t act (h : Manifest codec doc protocol origin t) => h.step act)
      opening acts
  refine ⟨h, ?_, ?_⟩
  · intro call t later done u
    have landed : Landed codec doc u call := (landed_of_ok done).kept (keeps_run t later)
    exact ⟨landed, fun again committed repeats => again_same landed repeats committed⟩
  · intro call committed refused
    obtain ⟨fault, failed⟩ := refused_error h refused
    simp only [step, failed, settle]

end TradeAgent.Dataset
