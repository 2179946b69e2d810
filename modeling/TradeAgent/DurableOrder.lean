import Mathlib.Data.List.Basic
import TradeAgent.DurableWriter
import TradeAgent.EvidenceIntegrity
import TradeAgent.Library.Machine

/-! What the durable writer has persisted is what was submitted, in order and once: its chunks are
the accepted submissions cut into groups of one kind, and a flush that returned covers whatever
was accepted before it. -/
namespace TradeAgent.Confirmation

section sizes

variable {fl : Floats}

def textSize (text : List Char) : ℕ := (String.ofList text).toUTF8.size

theorem textSize_append (first second : List Char) :
    textSize (first ++ second) = textSize first + textSize second := by
  simp only [textSize, String.ofList_append, String.toUTF8_eq_toByteArray,
    String.size_toByteArray, String.utf8ByteSize_append]

theorem encodedSize_eq {value : Json fl.Carrier} (distinct : value.Distinct) :
    encodedSize value = textSize (Json.write fl Json.compact value.sorted) := by
  rw [encodedSize, canonical_ok fl distinct]
  rfl

theorem textSize_cons (c : Char) (text : List Char) :
    textSize (c :: text) = textSize [c] + textSize text := textSize_append [c] text

def rowText (record : Payload fl) : List Char :=
  Json.write fl Json.compact (Json.object record.val).sorted

def rowsText (records : List (Payload fl)) : List Char :=
  Json.write fl Json.compact (recordsDump records).sorted

/-- What follows the first rows of an array, its closing bracket included. -/
def tailText (records : List (Payload fl)) : List Char :=
  Json.writeItems fl Json.compact (records.map fun record => (Json.object record.val).sorted)

theorem recordsDump_sorted (records : List (Payload fl)) :
    (recordsDump records).sorted =
      .array (records.map fun record => (Json.object record.val).sorted) := by
  show Json.array (Json.sortedItems _) = _
  congr 1
  induction records with
  | nil => rfl
  | cons record rest ih => simp only [List.map_cons, Json.sortedItems, ih]

theorem rowsText_nil : rowsText ([] : List (Payload fl)) = ['[', ']'] := by
  rw [rowsText, recordsDump_sorted]
  rfl

theorem rowsText_cons (record : Payload fl) (rest : List (Payload fl)) :
    rowsText (record :: rest) = '[' :: (rowText record ++ tailText rest) := by
  rw [rowsText, recordsDump_sorted]
  rfl

theorem tailText_cons (record : Payload fl) (rest : List (Payload fl)) :
    tailText (record :: rest) = ',' :: (rowText record ++ tailText rest) := rfl

theorem tailText_append (first second : List (Payload fl)) :
    textSize (tailText (first ++ second)) + 1 =
      textSize (tailText first) + textSize (tailText second) := by
  induction first with
  | nil => exact Nat.add_comm _ 1
  | cons record rest ih =>
    rw [List.cons_append, tailText_cons, tailText_cons, textSize_cons, textSize_append,
      textSize_cons ',' (rowText record ++ tailText rest), textSize_append]
    omega

theorem tailText_le (records : List (Payload fl)) :
    textSize (tailText records) ≤ textSize (rowsText records) := by
  cases records with
  | nil =>
    rw [rowsText_nil]
    exact (by decide : textSize [']'] ≤ textSize ['[', ']'])
  | cons record rest =>
    rw [tailText_cons, rowsText_cons, textSize_cons, textSize_cons '[']
    exact Nat.le_refl _

/-- Rows written together take no more than written apart. -/
theorem rowsText_append (first second : List (Payload fl)) :
    textSize (rowsText (first ++ second)) ≤
      textSize (rowsText first) + textSize (rowsText second) := by
  cases first with
  | nil => exact Nat.le_add_left _ _
  | cons record rest =>
    have joined := tailText_append rest second
    have tail := tailText_le second
    rw [List.cons_append, rowsText_cons, rowsText_cons, textSize_cons, textSize_append,
      textSize_cons '[' (rowText record ++ tailText rest), textSize_append]
    omega

theorem encodedSize_rows (records : List (Payload fl)) :
    encodedSize (recordsDump records) = textSize (rowsText records) :=
  encodedSize_eq (recordsDump_distinct records)

theorem encodedSize_append (first second : List (Payload fl)) :
    encodedSize (recordsDump (first ++ second)) ≤
      encodedSize (recordsDump first) + encodedSize (recordsDump second) := by
  simp only [encodedSize_rows]
  exact rowsText_append first second

theorem encodedSize_records (submission : Submission fl) :
    encodedSize (recordsDump submission.records) ≤ encodedSize submission.dump := by
  have sorted : submission.dump.sorted =
      .object [("kind", .string submission.kind), ("records", (recordsDump submission.records).sorted)] := by
    show Json.object (List.insertionSort _ _) = _
    simp [Json.sortedMembers, Json.sorted, List.insertionSort,
      show ("kind" : String) ≤ "records" by decide]
  have text : Json.write fl Json.compact submission.dump.sorted =
      ('{' :: Json.quoted "kind" ++ ':' :: Json.quoted submission.kind ++ ',' :: Json.quoted "records" ++
        [':']) ++ (rowsText submission.records ++ ['}']) := by
    rw [sorted]
    simp [Json.write, Json.writeMembers, Json.compact, rowsText]
  rw [encodedSize_rows, encodedSize_eq submission.dump_distinct, text, textSize_append,
    textSize_append (rowsText _)]
  omega

/-- The body `append` measures: the rows in an object of one member. -/
theorem bodyOf_chunk (chunk : Chunk fl) :
    (bodyOf fl chunk.payload).size = encodedSize (recordsDump chunk.records) + 12 := by
  have body : (bodyOf fl chunk.payload).size =
      textSize (Json.write fl Json.compact (Json.object chunk.payload.val).sorted) := rfl
  have text : Json.write fl Json.compact (Json.object chunk.payload.val).sorted =
      ('{' :: Json.quoted "records" ++ [':']) ++ (rowsText chunk.records ++ ['}']) := by
    show Json.write fl Json.compact (.object [("records", (recordsDump chunk.records).sorted)]) = _
    simp [Json.write, Json.writeMembers, Json.compact, rowsText]
  have opening : textSize ('{' :: Json.quoted "records" ++ [':']) = 11 := by decide +kernel
  have closing : textSize ['}'] = 1 := by decide +kernel
  rw [body, text, encodedSize_rows, textSize_append, textSize_append (rowsText _), opening, closing]
  omega

end sizes

/-! ## Groups -/

section groups

variable {fl : Floats}

def recordsOf (submissions : List (Submission fl)) : List (Payload fl) :=
  submissions.flatMap Submission.records

@[simp] theorem recordsOf_append (first second : List (Submission fl)) :
    recordsOf (first ++ second) = recordsOf first ++ recordsOf second := List.flatMap_append

def kindOf : List (Submission fl) → String
  | [] => ""
  | submission :: _ => submission.kind

/-- The submissions of one chunk. -/
structure Group (group : List (Submission fl)) : Prop where
  nonempty : group ≠ []
  kind : ∀ submission ∈ group, submission.kind = kindOf group
  size : encodedSize (recordsDump (recordsOf group)) ≤ 3 * frameLimit

/-- The chunks that groups of submissions make, numbered from a first one on. -/
def chunksOf : ℕ → List (List (Submission fl)) → List (Chunk fl)
  | _, [] => []
  | number, group :: rest =>
    ⟨kindOf group, "chunk:" ++ toString number, recordsOf group⟩ :: chunksOf (number + 1) rest

theorem chunksOf_snoc (number : ℕ) (groups : List (List (Submission fl)))
    (group : List (Submission fl)) :
    chunksOf number (groups ++ [group]) = chunksOf number groups ++
      [⟨kindOf group, "chunk:" ++ toString (number + groups.length), recordsOf group⟩] := by
  induction groups generalizing number with
  | nil => rfl
  | cons first rest ih =>
    rw [List.cons_append, chunksOf, ih, chunksOf, List.length_cons, Nat.add_right_comm]
    rfl

theorem chunksOf_records (number : ℕ) (groups : List (List (Submission fl))) :
    (chunksOf number groups).flatMap Chunk.records = recordsOf groups.flatten := by
  induction groups generalizing number with
  | nil => rfl
  | cons group rest ih =>
    rw [chunksOf, List.flatMap_cons, ih, List.flatten_cons, recordsOf_append]

theorem mem_chunksOf {number : ℕ} {groups : List (List (Submission fl))} {chunk : Chunk fl}
    (member : chunk ∈ chunksOf number groups) :
    ∃ group ∈ groups, chunk.kind = kindOf group ∧ chunk.records = recordsOf group := by
  induction groups generalizing number with
  | nil => cases member
  | cons group rest ih =>
    rcases List.mem_cons.mp member with here | later
    · exact ⟨group, List.mem_cons_self, here ▸ rfl, here ▸ rfl⟩
    · obtain ⟨found, inRest, same⟩ := ih later
      exact ⟨found, List.mem_cons_of_mem _ inRest, same⟩

end groups

/-! ## What every state of a run satisfies -/

section invariant

variable {fl : Floats}

/-- The submissions of a queue, its stop marks left out. -/
def waiting (queue : List (Option (Submission fl))) : List (Submission fl) := queue.filterMap id

/-- The task's variables describe the submissions it has in hand. -/
def Stage.Holds (stage : Stage fl) (hand : List (Submission fl)) : Prop :=
  match stage with
  | .taking | .stopped => hand = []
  | .packing submission rows consumed size =>
    Group hand ∧ submission.kind = kindOf hand ∧ rows = recordsOf hand ∧ consumed = hand.length ∧
      encodedSize (recordsDump rows) ≤ size
  | .appending kind rows consumed =>
    Group hand ∧ kind = kindOf hand ∧ rows = recordsOf hand ∧ consumed = hand.length
  | .failed _ => False

/-- Nothing accepted is outstanding. -/
structure Quiet (hand : List (Submission fl)) (carry : Option (Submission fl))
    (queue : List (Option (Submission fl))) : Prop where
  hand : hand = []
  carry : carry = none
  queue : waiting queue = []

structure Conserved (s : Writer fl) (groups : List (List (Submission fl)))
    (hand : List (Submission fl)) : Prop where
  grouped : ∀ group ∈ groups, Group group
  chunks : s.chunks = chunksOf 1 groups
  next : s.nextChunk = groups.length + 1
  accepted : s.accepted = groups.flatten ++ hand ++ s.carry.toList ++ waiting s.queue
  small : ∀ submission ∈ s.accepted, encodedSize submission.dump ≤ frameLimit * 2
  stage : s.stage.Holds hand
  carried : ∀ submission rows consumed size,
    s.stage = .packing submission rows consumed size → s.carry = none
  unfinished : s.unfinished = hand.length + s.carry.toList.length + s.queue.length
  slots : s.slots + s.reserved + hand.length + s.carry.toList.length + (waiting s.queue).length =
    queueCapacity
  done : s.done = groups.flatten.length
  released : s.released = groups.flatten.length
  before : ∀ f ∈ s.flushes, f.before ≤ s.accepted.length
  settled : ∀ f ∈ s.flushes, ∀ n, f.stage.settled = some n → f.before ≤ n ∧ n ≤ groups.flatten.length
  closing : ∀ f ∈ s.flushes, f.closing → s.closing
  closed : (∃ f ∈ s.flushes, f.closing ∧ f.stage.settled.isSome) → Quiet hand s.carry s.queue
  stops : none ∈ s.queue ∨ s.stage = .stopped → ∃ f ∈ s.flushes, f.closing ∧ ∃ n, f.stage = .sealed n

/-- Every append succeeds and nothing is submitted once a close has begun. -/
def Calm (s : Writer fl) : WriterMove fl → Prop
  | .submitReserved _ => s.closing = false
  | .append (some _) => False
  | _ => True

theorem Conserved.initial : Conserved ({} : Writer fl) [] [] where
  grouped := by simp
  chunks := rfl
  next := rfl
  accepted := rfl
  small := by simp
  stage := rfl
  carried := by simp
  unfinished := rfl
  slots := rfl
  done := rfl
  released := rfl
  before := by simp
  settled := by simp
  closing := by simp
  closed := by simp
  stops := by simp

variable {s : Writer fl} {groups : List (List (Submission fl))} {hand : List (Submission fl)}

theorem Conserved.quiet (h : Conserved s groups hand) (zero : s.unfinished = 0) :
    Quiet hand s.carry s.queue ∧ s.queue = [] ∧ s.accepted = groups.flatten := by
  have counted := h.unfinished
  rw [zero] at counted
  have noHand : hand = [] := List.eq_nil_of_length_eq_zero (by omega)
  have noCarry : s.carry = none := by
    cases present : s.carry with
    | none => rfl
    | some submission =>
      rw [present] at counted
      simp at counted
      omega
  have noQueue : s.queue = [] := List.eq_nil_of_length_eq_zero (by omega)
  refine ⟨⟨noHand, noCarry, by rw [noQueue]; rfl⟩, noQueue, ?_⟩
  rw [h.accepted, noHand, noCarry, noQueue]
  simp [waiting]

theorem settle_settled {f : Flush} {accepted n : ℕ} (settled : (f.settle accepted).stage.settled = some n) :
    n = accepted ∨ f.stage.settled = some n := by
  unfold Flush.settle at settled
  split at settled
  next => exact .inl (Option.some.inj settled).symm
  next => exact .inr settled

theorem settle_same (f : Flush) (accepted : ℕ) :
    (f.settle accepted).closing = f.closing ∧ (f.settle accepted).before = f.before := by
  unfold Flush.settle
  split <;> exact ⟨rfl, rfl⟩

theorem settle_sealed {f : Flush} {accepted n : ℕ} (sealed : f.stage = .sealed n) :
    f.settle accepted = f := by
  simp only [Flush.settle, sealed]

/-- Marking tasks done wakes the joins when nothing is left, and changes nothing else. -/
theorem Conserved.taskDone {count : ℕ}
    (h : Conserved { s with unfinished := s.unfinished - count } groups hand) :
    Conserved (s.taskDone count) groups hand := by
  unfold Writer.taskDone
  by_cases zero : s.unfinished - count = 0
  · obtain ⟨quiet, -, all⟩ := h.quiet zero
    rw [if_pos zero]
    refine { h with
      before := ?_, settled := ?_, closing := ?_, closed := fun _ => quiet, stops := ?_ }
    · intro g member
      obtain ⟨f, old, rfl⟩ := List.mem_map.mp member
      rw [(settle_same f _).2]
      exact h.before f old
    · intro g member n settled
      obtain ⟨f, old, rfl⟩ := List.mem_map.mp member
      rw [(settle_same f _).2]
      rcases settle_settled settled with rfl | before
      · exact ⟨h.before f old, (congrArg List.length all).le⟩
      · exact h.settled f old n before
    · intro g member closing
      obtain ⟨f, old, rfl⟩ := List.mem_map.mp member
      rw [(settle_same f _).1] at closing
      exact h.closing f old closing
    · intro stop
      obtain ⟨f, old, closing, n, sealed⟩ := h.stops stop
      exact ⟨f, List.mem_map.mpr ⟨f, old, settle_sealed sealed⟩, closing, n, sealed⟩
  · rw [if_neg zero]
    exact h

theorem Conserved.reserve (h : Conserved s groups hand) : Conserved s.reserve groups hand := by
  unfold Writer.reserve
  split
  next => exact h
  next free =>
    have counted := h.slots
    have positive : s.slots ≠ 0 := fun zero => free (.inr zero)
    exact { h with slots := by dsimp only; omega }

@[simp] theorem waiting_append (first second : List (Option (Submission fl))) :
    waiting (first ++ second) = waiting first ++ waiting second := List.filterMap_append

theorem Conserved.submitReserved (h : Conserved s groups hand) (submission : Submission fl)
    (running : s.closing = false) : Conserved (s.submitReserved submission) groups hand := by
  have noClosing : ∀ f ∈ s.flushes, f.closing = false := by
    intro f member
    cases closing : f.closing with
    | false => rfl
    | true => exact absurd (h.closing f member closing) (by simp [running])
  have counted := h.slots
  unfold Writer.submitReserved
  split
  next => exact h
  next held =>
    split
    next => exact { h with slots := by dsimp only; omega }
    next small =>
      split
      next full =>
        -- A reserved slot leaves room in the queue unless a stop mark takes it.
        have stop : none ∈ s.queue := by
          by_contra absent
          have all : (waiting s.queue).length = s.queue.length := by
            have each : ∀ x ∈ s.queue, (id x).isSome := by
              intro x member
              cases x with
              | none => exact absurd member absent
              | some _ => rfl
            exact List.filterMap_length_eq_length.mpr each
          omega
        obtain ⟨f, member, closing, -⟩ := h.stops (.inl stop)
        simp [noClosing f member] at closing
      next =>
        refine { h with
          accepted := ?_, small := ?_, unfinished := ?_, slots := ?_, before := ?_, closed := ?_, stops := ?_ }
        · simp [h.accepted, waiting]
        · intro x member
          rcases List.mem_append.mp member with old | new
          · exact h.small x old
          · rw [List.mem_singleton.mp new]
            omega
        · have := h.unfinished
          simp only [List.length_append, List.length_singleton]
          omega
        · simp only [waiting_append, List.length_append]
          have one : (waiting [some submission]).length = 1 := rfl
          omega
        · intro f member
          have := h.before f member
          simp only [List.length_append]
          omega
        · rintro ⟨f, member, closing, -⟩
          simp [noClosing f member] at closing
        · intro stop
          refine h.stops (stop.imp_left fun member => ?_)
          simpa using member

theorem single_group {submission : Submission fl} (small : encodedSize submission.dump ≤ frameLimit * 2) :
    Group [submission] where
  nonempty := by simp
  kind := by simp [kindOf]
  size := by
    have records := encodedSize_records submission
    simp only [recordsOf, List.flatMap_singleton]
    omega

theorem Conserved.open_ (h : Conserved s groups hand) (submission : Submission fl)
    (outstanding : submission ∈ s.carry.toList ++ waiting s.queue) :
    ∀ f ∈ s.flushes, ¬(f.closing ∧ f.stage.settled.isSome) := by
  rintro f member ⟨closing, settled⟩
  have quiet := h.closed ⟨f, member, closing, settled⟩
  rw [quiet.carry, quiet.queue] at outstanding
  cases outstanding

/-- A submission that was outstanding starts the next chunk. -/
theorem Conserved.pack (h : Conserved s groups []) {submission : Submission fl}
    (queue : List (Option (Submission fl)))
    (split : s.carry.toList ++ waiting s.queue = submission :: waiting queue)
    (length : s.carry.toList.length + s.queue.length = 1 + queue.length)
    (stops : none ∈ queue → none ∈ s.queue) :
    Conserved (Writer.pack submission { s with queue }) groups [submission] := by
  have open_ := h.open_ submission (by simp [split])
  have accepted : s.accepted = groups.flatten ++ submission :: waiting queue := by
    rw [← split, h.accepted]
    simp
  have small : encodedSize submission.dump ≤ frameLimit * 2 := h.small _ (by simp [accepted])
  have counted := congrArg List.length split
  have unfinished := h.unfinished
  have slots := h.slots
  simp only [List.length_append, List.length_cons, List.length_nil] at counted unfinished slots
  unfold Writer.pack
  refine { h with
    accepted := by simpa using accepted
    stage := ⟨single_group small, rfl, by simp [recordsOf], rfl, Nat.le_refl _⟩
    carried := fun _ _ _ _ _ => rfl
    unfinished := by simp; omega
    slots := by simp; omega
    closed := ?_, stops := ?_ }
  · rintro ⟨f, member, settled⟩
    exact absurd settled (open_ f member)
  · rintro (stop | impossible)
    · obtain ⟨f, member, closing, n, sealed⟩ := h.stops (.inl (stops stop))
      exact absurd ⟨closing, by simp [sealed, FlushStage.settled]⟩ (open_ f member)
    · cases impossible

/-- A stop mark is met only when nothing is outstanding. -/
theorem Conserved.stopped (h : Conserved s groups hand) (stop : none ∈ s.queue) :
    Quiet hand s.carry s.queue := by
  obtain ⟨f, member, closing, n, sealed⟩ := h.stops (.inl stop)
  exact h.closed ⟨f, member, closing, by simp [sealed, FlushStage.settled]⟩

theorem Conserved.take (h : Conserved s groups hand) : ∃ hand', Conserved s.take groups hand' := by
  unfold Writer.take
  cases at_ : s.stage with
  | taking =>
    have empty : hand = [] := by simpa [Stage.Holds, at_] using h.stage
    subst empty
    cases carried : s.carry with
    | some submission =>
      exact ⟨[submission], h.pack s.queue (by simp [carried]) (by simp [carried]) id⟩
    | none =>
      cases queued : s.queue with
      | nil => exact ⟨[], h⟩
      | cons first rest =>
        cases first with
        | some submission =>
          refine ⟨[submission], h.pack rest ?_ ?_ ?_⟩
          · simp [carried, queued, waiting]
          · simp [carried, queued, Nat.add_comm]
          · intro member
            simp [queued, member]
        | none =>
          have stop : none ∈ s.queue := by simp [queued]
          have quiet := h.stopped stop
          have same : waiting s.queue = waiting rest := by simp [queued, waiting]
          have accepted := h.accepted
          have unfinished := h.unfinished
          have slots := h.slots
          rw [same, carried] at accepted slots
          rw [carried, queued, List.length_cons] at unfinished
          refine ⟨[], Conserved.taskDone { h with
            accepted := accepted, stage := rfl, carried := ?_, unfinished := ?_, slots := slots
            closed := fun _ => ⟨rfl, rfl, same ▸ quiet.queue⟩
            stops := fun _ => h.stops (.inl stop) }⟩
          · intro _ _ _ _ impossible
            cases impossible
          · dsimp only
            omega
  | packing | appending | stopped | failed => exact ⟨hand, h⟩

theorem Conserved.follow (h : Conserved s groups hand) : ∃ hand', Conserved s.follow groups hand' := by
  unfold Writer.follow
  cases at_ : s.stage with
  | packing submission rows consumed size =>
    have stage := h.stage
    rw [at_] at stage
    obtain ⟨group, kind, rows_, count, bound⟩ := stage
    have noCarry := h.carried _ _ _ _ at_
    dsimp only
    split
    next more =>
      cases queued : s.queue with
      | nil => exact ⟨hand, h⟩
      | cons first rest =>
        cases first with
        | none =>
          -- No chunk is being packed when a stop mark is in the queue.
          have quiet := h.stopped (by simp [queued])
          exact absurd quiet.hand group.nonempty
        | some following =>
          have same : waiting s.queue = following :: waiting rest := by simp [queued, waiting]
          have open_ := h.open_ following (by simp [same])
          have accepted := h.accepted
          have unfinished := h.unfinished
          have slots := h.slots
          rw [same, noCarry] at accepted slots
          rw [noCarry, queued] at unfinished
          simp only [Option.toList_none, List.append_nil, List.length_nil, List.length_cons] at accepted unfinished slots
          have stops : ∀ {stage : Stage fl}, none ∈ rest ∨ stage = .stopped → stage ≠ .stopped →
              ∃ f ∈ s.flushes, f.closing ∧ ∃ n, f.stage = .sealed n := by
            intro stage stop running
            exact h.stops (.inl (by simp [queued, stop.resolve_right running]))
          dsimp only
          split
          next other =>
            refine ⟨hand, { h with
              accepted := by simpa using accepted
              stage := ⟨group, kind, rows_, count⟩
              carried := ?_, unfinished := ?_, slots := ?_, closed := ?_, stops := ?_ }⟩
            · intro _ _ _ _ impossible
              cases impossible
            · simp
              omega
            · simp
              omega
            · rintro ⟨f, member, settled⟩
              exact absurd settled (open_ f member)
            · intro stop
              exact stops stop (by simp)
          next alike =>
            have small : encodedSize following.dump ≤ frameLimit * 2 := h.small _ (by simp [accepted])
            have grown : encodedSize (recordsDump (rows ++ following.records)) ≤
                size + encodedSize following.dump :=
              (encodedSize_append rows following.records).trans
                (Nat.add_le_add bound (encodedSize_records following))
            have joined : recordsOf (hand ++ [following]) = rows ++ following.records := by
              simp [rows_, recordsOf]
            have head : kindOf (hand ++ [following]) = kindOf hand := by
              cases hand with
              | nil => exact absurd rfl group.nonempty
              | cons first later => rfl
            have next : Group (hand ++ [following]) := by
              refine ⟨by simp, ?_, by rw [joined]; omega⟩
              intro x member
              rcases List.mem_append.mp member with old | new
              · rw [head]
                exact group.kind x old
              · rw [head, List.mem_singleton.mp new, ← kind]
                exact not_not.mp alike
            refine ⟨hand ++ [following], { h with
              accepted := by simpa [noCarry] using accepted
              stage := ⟨next, by rw [head, kind], joined.symm, by simp [count], grown⟩
              carried := fun _ _ _ _ _ => noCarry
              unfinished := ?_, slots := ?_, closed := ?_, stops := ?_ }⟩
            · simp [noCarry]
              omega
            · simp [noCarry]
              omega
            · rintro ⟨f, member, settled⟩
              exact absurd settled (open_ f member)
            · intro stop
              exact stops stop (by simp)
    next => exact ⟨hand, h⟩
  | taking | appending | stopped | failed => exact ⟨hand, h⟩

theorem Conserved.timeout (h : Conserved s groups hand) : Conserved s.timeout groups hand := by
  unfold Writer.timeout
  cases at_ : s.stage with
  | packing submission rows consumed size =>
    have stage := h.stage
    rw [at_] at stage
    obtain ⟨group, kind, rows_, count, -⟩ := stage
    refine { h with stage := ⟨group, kind, rows_, count⟩, carried := ?_, stops := ?_ }
    · intro _ _ _ _ impossible
      cases impossible
    · rintro (stop | impossible)
      · exact h.stops (.inl stop)
      · cases impossible
  | taking | appending | stopped | failed => exact h

/-- An append persists what is in hand and acknowledges each of its submissions. -/
theorem Conserved.append (h : Conserved s groups hand) :
    ∃ groups' hand', Conserved (s.append none) groups' hand' := by
  unfold Writer.append
  cases at_ : s.stage with
  | appending kind rows consumed =>
    have stage := h.stage
    rw [at_] at stage
    obtain ⟨group, rfl, rfl, rfl⟩ := stage
    have accepted := h.accepted
    have unfinished := h.unfinished
    have slots := h.slots
    have length : (groups ++ [hand]).flatten.length = groups.flatten.length + hand.length := by simp
    refine ⟨groups ++ [hand], [], Conserved.taskDone { h with
      grouped := ?_, chunks := ?_, next := ?_, accepted := by simpa using accepted
      stage := rfl, carried := ?_, unfinished := ?_, slots := ?_, done := ?_, released := ?_
      settled := ?_, closed := ?_, stops := ?_ }⟩
    · intro g member
      rcases List.mem_append.mp member with old | new
      · exact h.grouped g old
      · exact List.mem_singleton.mp new ▸ group
    · show s.chunks ++ [_] = _
      rw [chunksOf_snoc, h.chunks, h.next, Nat.add_comm 1 groups.length]
    · simp [h.next]
    · intro _ _ _ _ impossible
      cases impossible
    · simp
      omega
    · simp
      omega
    · rw [length]
      exact congrArg (· + hand.length) h.done
    · rw [length]
      exact congrArg (· + hand.length) h.released
    · intro f member n settled
      have := h.settled f member n settled
      omega
    · intro closed
      exact absurd (h.closed closed).hand group.nonempty
    · rintro (stop | impossible)
      · exact h.stops (.inl stop)
      · cases impossible
  | taking | packing | stopped | failed => exact ⟨groups, hand, h⟩

theorem Conserved.flush (h : Conserved s groups hand) (closing : Bool) :
    Conserved (s.flush closing) groups hand := by
  unfold Writer.flush
  refine { h with before := ?_, settled := ?_, closing := ?_, closed := ?_, stops := ?_ }
  · intro f member
    rcases List.mem_append.mp member with old | new
    · exact h.before f old
    · rw [List.mem_singleton.mp new]
  · intro f member n settled
    rcases List.mem_append.mp member with old | new
    · exact h.settled f old n settled
    · rw [List.mem_singleton.mp new] at settled ⊢
      dsimp only at settled ⊢
      split at settled
      next zero =>
        obtain rfl := Option.some.inj settled
        exact ⟨Nat.le_refl _, (congrArg List.length (h.quiet zero).2.2).le⟩
      next => cases settled
  · intro f member closes
    rcases List.mem_append.mp member with old | new
    · simp [h.closing f old closes]
    · rw [List.mem_singleton.mp new] at closes
      simpa using Or.inr closes
  · rintro ⟨f, member, closes, settled⟩
    rcases List.mem_append.mp member with old | new
    · exact h.closed ⟨f, old, closes, settled⟩
    · rw [List.mem_singleton.mp new] at settled
      dsimp only at settled
      split at settled
      next zero => exact (h.quiet zero).1
      next => cases settled
  · intro stop
    obtain ⟨f, member, sealed⟩ := h.stops stop
    exact ⟨f, List.mem_append_left _ member, sealed⟩

theorem mem_modify {α : Type} {l : List α} {i : ℕ} {change : α → α} {y : α}
    (member : y ∈ l.modify i change) : ∃ x ∈ l, y = x ∨ y = change x := by
  obtain ⟨j, found⟩ := List.mem_iff_getElem?.mp member
  rw [List.getElem?_modify] at found
  cases before : l[j]? with
  | none => simp [before] at found
  | some x =>
    refine ⟨x, List.mem_of_getElem? before, ?_⟩
    rw [before] at found
    by_cases here : i = j
    · simp [here] at found
      exact .inr found.symm
    · simp [here] at found
      exact .inl found.symm

theorem modify_mem {α : Type} {l : List α} {x : α} (i : ℕ) (change : α → α) (member : x ∈ l) :
    x ∈ l.modify i change ∨ change x ∈ l.modify i change := by
  obtain ⟨j, found⟩ := List.mem_iff_getElem?.mp member
  by_cases here : i = j
  · exact .inr (List.mem_of_getElem? (i := j) (by simp [here, found]))
  · exact .inl (List.mem_of_getElem? (i := j) (by simp [here, found]))

/-- A change of a flush that neither settles nor unseals it. -/
structure Tame (change : Flush → Flush) : Prop where
  closing : ∀ f, (change f).closing = f.closing
  before : ∀ f, (change f).before = f.before
  settled : ∀ f n, (change f).stage.settled = some n → f.stage.settled = some n
  sealed : ∀ f n, f.stage = .sealed n → change f = f

theorem lapse_tame : Tame Flush.lapse := by
  constructor <;> intro f <;> unfold Flush.lapse <;> split <;> simp_all [FlushStage.settled]

theorem resume_tame (ended : Bool) : Tame (Flush.resume ended) := by
  constructor <;> intro f <;> unfold Flush.resume <;> split <;> cases ended <;>
    simp_all [FlushStage.settled]

theorem Conserved.modify (h : Conserved s groups hand) (i : ℕ) {change : Flush → Flush}
    (tame : Tame change) :
    Conserved { s with flushes := s.flushes.modify i change } groups hand := by
  have origin : ∀ g ∈ s.flushes.modify i change, ∃ f ∈ s.flushes, g.closing = f.closing ∧
      g.before = f.before ∧ ∀ n, g.stage.settled = some n → f.stage.settled = some n := by
    intro g member
    obtain ⟨f, old, rfl | rfl⟩ := mem_modify member
    · exact ⟨g, old, rfl, rfl, fun _ => id⟩
    · exact ⟨f, old, tame.closing f, tame.before f, tame.settled f⟩
  refine { h with before := ?_, settled := ?_, closing := ?_, closed := ?_, stops := ?_ }
  · intro g member
    obtain ⟨f, old, -, before, -⟩ := origin g member
    exact before ▸ h.before f old
  · intro g member n settled
    obtain ⟨f, old, -, before, same⟩ := origin g member
    exact before ▸ h.settled f old n (same n settled)
  · intro g member closes
    obtain ⟨f, old, closing, -⟩ := origin g member
    exact h.closing f old (closing ▸ closes)
  · rintro ⟨g, member, closes, settled⟩
    obtain ⟨f, old, closing, -, same⟩ := origin g member
    obtain ⟨n, settled⟩ := Option.isSome_iff_exists.mp settled
    exact h.closed ⟨f, old, closing ▸ closes, by simp [same n settled]⟩
  · intro stop
    obtain ⟨f, old, closes, n, sealed⟩ := h.stops stop
    refine ⟨f, ?_, closes, n, sealed⟩
    rcases modify_mem i change old with same | changed
    · exact same
    · rwa [tame.sealed f n sealed] at changed

theorem Conserved.putStop (h : Conserved s groups hand) (i : ℕ) :
    Conserved (s.putStop i) groups hand := by
  unfold Writer.putStop
  split
  next before settled found =>
    split
    next room =>
      have member := List.mem_of_getElem? found
      have quiet := h.closed ⟨_, member, rfl, rfl⟩
      have bounds := h.settled _ member settled rfl
      have started : before ≤ s.accepted.length := h.before _ member
      have accepted := h.accepted
      have unfinished := h.unfinished
      have slots := h.slots
      have mark : waiting (s.queue ++ [none]) = waiting s.queue := by simp [waiting]
      have origin : ∀ g ∈ s.flushes.set i ⟨true, before, .sealed settled⟩,
          g ∈ s.flushes ∨ g = ⟨true, before, .sealed settled⟩ :=
        fun g inSet => List.mem_or_eq_of_mem_set inSet
      refine { h with
        accepted := by rw [mark]; exact accepted
        unfinished := ?_, slots := by rw [mark]; exact slots
        before := ?_, settled := ?_, closing := ?_, closed := ?_, stops := ?_ }
      · simp
        omega
      · intro g inSet
        rcases origin g inSet with old | rfl
        · exact h.before g old
        · exact started
      · intro g inSet n same
        rcases origin g inSet with old | rfl
        · exact h.settled g old n same
        · exact Option.some.inj same ▸ bounds
      · intro g inSet closes
        rcases origin g inSet with old | rfl
        · exact h.closing g old closes
        · exact h.closing _ member rfl
      · exact fun _ => ⟨quiet.hand, quiet.carry, mark.trans quiet.queue⟩
      · intro _
        have inside : i < s.flushes.length := (List.getElem?_eq_some_iff.mp found).1
        exact ⟨⟨true, before, .sealed settled⟩, List.mem_set inside _, rfl, settled, rfl⟩
    next => exact h
  next => exact h

theorem Conserved.step (h : Conserved s groups hand) {move : WriterMove fl} (calm : Calm s move) :
    ∃ groups' hand', Conserved (s.step move) groups' hand' := by
  cases move with
  | reserve => exact ⟨_, _, h.reserve⟩
  | submitReserved submission => exact ⟨_, _, h.submitReserved submission calm⟩
  | take => exact ⟨_, h.take⟩
  | follow => exact ⟨_, h.follow⟩
  | timeout => exact ⟨_, _, h.timeout⟩
  | append outcome =>
    cases outcome with
    | none => exact h.append
    | some fault => exact calm.elim
  | flush closing => exact ⟨_, _, h.flush closing⟩
  | lapse i => exact ⟨_, _, h.modify i lapse_tame⟩
  | resume i => exact ⟨_, _, h.modify i (resume_tame _)⟩
  | putStop i => exact ⟨_, _, h.putStop i⟩

theorem run_conserved {moves : List (WriterMove fl)}
    (calm : Machine.Along Writer.step Calm ({} : Writer fl) moves) :
    ∃ groups hand, Conserved (Machine.run Writer.step {} moves) groups hand := by
  have kept : ∀ (s : Writer fl) move, (∃ groups hand, Conserved s groups hand) → Calm s move →
      ∃ groups hand, Conserved (s.step move) groups hand := by
    rintro s move ⟨groups, hand, h⟩ met
    exact h.step met
  exact calm.invariant kept ⟨[], [], Conserved.initial⟩

end invariant

section results

variable {fl : Floats}

/-- Each chunk is a group of consecutive submissions of one kind, the groups are the first
submissions accepted, and each of these was acknowledged and gave its slot back once. -/
structure Packed (s : Writer fl) (groups : List (List (Submission fl))) : Prop where
  chunks : s.chunks = chunksOf 1 groups
  kinds : ∀ group ∈ groups, group ≠ [] ∧ ∀ submission ∈ group, submission.kind = kindOf group
  order : groups.flatten <+: s.accepted
  done : s.done = groups.flatten.length
  released : s.released = groups.flatten.length
  slots : s.slots + s.reserved + s.accepted.length = queueCapacity + s.released

/-- Everything accepted is persisted, acknowledged and has its slot back. -/
structure Flushed (s : Writer fl) : Prop where
  records : s.chunks.flatMap Chunk.records = recordsOf s.accepted
  done : s.done = s.accepted.length
  released : s.released = s.accepted.length
  slots : s.slots + s.reserved = queueCapacity

theorem Conserved.packed {s : Writer fl} {groups : List (List (Submission fl))}
    {hand : List (Submission fl)} (h : Conserved s groups hand) : Packed s groups where
  chunks := h.chunks
  kinds group member := ⟨(h.grouped group member).nonempty, (h.grouped group member).kind⟩
  order := ⟨hand ++ s.carry.toList ++ waiting s.queue, by rw [h.accepted]; simp⟩
  done := h.done
  released := h.released
  slots := by
    have slots := h.slots
    have accepted := congrArg List.length h.accepted
    have released := h.released
    simp only [List.length_append] at accepted
    omega

theorem Packed.covers {s : Writer fl} {groups : List (List (Submission fl))} (packed : Packed s groups)
    {n : ℕ} (bound : n ≤ groups.flatten.length) :
    recordsOf (s.accepted.take n) <+: s.chunks.flatMap Chunk.records := by
  obtain ⟨rest, accepted⟩ := packed.order
  rw [packed.chunks, chunksOf_records, ← accepted, List.take_append_of_le_length bound]
  refine ⟨recordsOf (groups.flatten.drop n), ?_⟩
  rw [← recordsOf_append, List.take_append_drop]

theorem Packed.flushed {s : Writer fl} {groups : List (List (Submission fl))} (packed : Packed s groups)
    (all : s.accepted.length ≤ groups.flatten.length) : Flushed s := by
  have same : groups.flatten = s.accepted := packed.order.eq_of_length_le all
  have done := packed.done
  have released := packed.released
  have slots := packed.slots
  rw [same] at done released
  exact ⟨by rw [packed.chunks, chunksOf_records, same], done, released, by omega⟩

/-- In every run of submitters, flushes, closes and the writer task in which no append fails and
nothing is submitted once a close has begun: the chunks are the accepted submissions in order, cut
where the kind changes or the size is reached; no chunk is too large to append; and a flush that
returned has persisted all that was accepted before it, which is everything if no submission was
accepted since its join completed. -/
theorem writer_conserves (moves : List (WriterMove fl))
    (calm : Machine.Along Writer.step Calm ({} : Writer fl) moves) :
    let s := Machine.run Writer.step ({} : Writer fl) moves
    (∃ groups, Packed s groups) ∧
      (∀ chunk ∈ s.chunks, (bodyOf fl chunk.payload).size ≤ maxChunkBytes) ∧
      (∀ fault, s.stage ≠ .failed fault) ∧ (s.stage = .stopped → Flushed s) ∧
      ∀ f ∈ s.flushes, ∀ settled, f.stage.settled = some settled →
        f.before ≤ settled ∧
        recordsOf (s.accepted.take settled) <+: s.chunks.flatMap Chunk.records ∧
        (s.accepted.length = settled → Flushed s) := by
  intro s
  obtain ⟨groups, hand, h⟩ := run_conserved calm
  refine ⟨⟨groups, h.packed⟩, ?_, ?_, ?_, ?_⟩
  · intro chunk member
    obtain ⟨group, inGroups, -, records⟩ := mem_chunksOf (h.chunks ▸ member)
    have size := (h.grouped group inGroups).size
    have limits : 3 * frameLimit + 12 ≤ maxChunkBytes := by decide
    rw [bodyOf_chunk, records]
    omega
  · intro fault failed
    have stage := h.stage
    rw [show (Machine.run Writer.step {} moves).stage = .failed fault from failed] at stage
    exact stage
  · intro stopped
    obtain ⟨f, member, closing, n, sealed⟩ := h.stops (.inr stopped)
    have quiet := h.closed ⟨f, member, closing, by simp [sealed, FlushStage.settled]⟩
    have accepted := h.accepted
    rw [quiet.hand, quiet.carry, quiet.queue] at accepted
    exact h.packed.flushed (by simp [accepted])
  · intro f member settled at_
    obtain ⟨before, bound⟩ := h.settled f member settled at_
    exact ⟨before, h.packed.covers bound, fun all => h.packed.flushed (all.symm ▸ bound)⟩

instance (s : Writer fl) : DecidablePred (Calm s)
  | .submitReserved _ => inferInstanceAs (Decidable (s.closing = false))
  | .append (some _) => inferInstanceAs (Decidable False)
  | .append none | .reserve | .take | .follow | .timeout | .flush _ | .lapse _ | .resume _
  | .putStop _ => inferInstanceAs (Decidable True)

def submissionOf (kind : String) (numbers : List ℤ) : Submission Floats.zero :=
  ⟨kind, numbers.map fun n => ⟨[("n", .int n)], by simp, trivial, trivial⟩⟩

def closedRun : List (WriterMove Floats.zero) := [
  .reserve, .submitReserved (submissionOf "capture" [1, 2]),
  .reserve, .submitReserved (submissionOf "capture" [3]),
  .reserve, .submitReserved (submissionOf "label" [4]),
  .take, .follow, .follow, .flush true, .append none,
  .take, .timeout, .append none, .resume 0, .putStop 0, .take]

/-- A carried submission is persisted by the flush that a close begins with. -/
theorem closedRun_flushed :
    (Machine.run Writer.step {} closedRun).chunks.map (fun chunk => (chunk.kind, chunk.key)) =
        [("capture", "chunk:1"), ("label", "chunk:2")] ∧
      Flushed (Machine.run Writer.step {} closedRun) :=
  ⟨by decide +kernel, ((writer_conserves closedRun (by decide +kernel)).2.2.2.2
    ⟨true, 3, .sealed 3⟩ (by decide +kernel) 3 rfl).2.2 (by decide +kernel)⟩

end results

end TradeAgent.Confirmation
