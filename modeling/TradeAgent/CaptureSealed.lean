import TradeAgent.CaptureSeal
import TradeAgent.EvidenceIntegrity

/-! A run is sealed exactly when its lease holds through the shutdown and both the final quality and
the terminal record have room. The bytes kept back do not help the first of the two. -/
namespace TradeAgent.Confirmation

open Procedure

/-! ## Keys -/

theorem toString_digits (n : ℕ) : ∀ c ∈ (toString n).toList, c.isDigit := by
  rw [Nat.toString_eq_ofList_toDigits, String.toList_ofList]
  exact Json.toDigits_digits n

/-- No task uses a key of the shutdown. -/
theorem Task.key_apart (task : Task) : task.key ≠ "quality:final" ∧ task.key ≠ "terminal" := by
  cases task with
  | qualityAt at_ =>
    refine ⟨fun same => ?_, fun same => ?_⟩
    · have letters := congrArg String.toList same
      simp only [Task.key, String.toList_append] at letters
      have tail : (toString at_).toList = ['f', 'i', 'n', 'a', 'l'] := by simpa using letters
      have digit := toString_digits at_ 'f' (by rw [tail]; simp)
      simp at digit
    · have letters := congrArg String.toList same
      simp [Task.key, String.toList_append] at letters
  | _ => constructor <;> intro same <;> have letters := congrArg String.toList same <;>
      simp [Task.key, String.toList_append] at letters

theorem Task.kind_apart (task : Task) : task.kind ≠ "terminal" := by
  cases task with
  | chunk number kind => cases kind <;> simp [Task.kind, ChunkKind.name]
  | _ => simp [Task.kind]

theorem Task.chunk_inj {n m : ℕ} {kind kind' : ChunkKind}
    (same : (Task.chunk n kind).key = (Task.chunk m kind').key) : n = m := by
  have digits := (String.append_right_inj "chunk:").mp same
  rw [Nat.toString_eq_ofList_toDigits, Nat.toString_eq_ofList_toDigits] at digits
  have lists := congrArg String.toList digits
  rw [String.toList_ofList, String.toList_ofList] at lists
  calc n = Nat.ofDigitChars 10 (Nat.toDigits 10 n) 0 := Nat.ofDigitChars_ten_toDigits.symm
    _ = Nat.ofDigitChars 10 (Nat.toDigits 10 m) 0 := by rw [lists]
    _ = m := Nat.ofDigitChars_ten_toDigits

section sealing

variable {codec : Codec} {fl : Floats} {study me : String}

/-! ## When an append goes through -/

def charged (rows : List Row) : ℕ := (rows.getLast?.map (·.header.storedBytes)).getD 0

/-- The owner can append: it holds the lease, and the last record is its own and no later. -/
structure Ready (me : String) (now : ℕ) (atNs : ℤ) (s : Journal) : Prop where
  held : lease me now s = .ok ()
  last : ∃ prior, s.rows.getLast? = some prior ∧ prior.header.ownerId = me ∧
    prior.header.atNs ≤ atNs

/-- The record asked for has room: in a chunk, and below the limit of its kind. -/
structure Fits (codec : Codec) {fl : Floats} (request : Request fl) (rows : List Row) : Prop where
  chunk : (bodyOf fl request.payload).size ≤ maxChunkBytes
  limit : charged rows + ((codec.compress (bodyOf fl request.payload)).size + 512) ≤
    payloadLimit request.kind

/-- The owner's records keep clear of some keys and are not terminal. -/
def Clear (me : String) (keys : List String) (rows : List Row) : Prop :=
  ∀ row ∈ rows, row.header.ownerId = me → row.header.key ∉ keys ∧ row.header.kind ≠ "terminal"

theorem Sealed.last_sequence {rows : List Row} (sealed : Sealed codec fl study rows) {prior row : Row}
    (last : rows.getLast? = some prior) (member : row ∈ rows) :
    row.header.sequence ≤ prior.header.sequence := by
  obtain ⟨i, here⟩ := List.mem_iff_getElem?.mp member
  have bound := (List.getElem?_eq_some_iff.mp here).1
  have end_ := sealed.gapless (List.getLast?_eq_getElem? ▸ last)
  have at_ := sealed.gapless here
  omega

theorem Sealed.all_mine {rows : List Row} (sealed : Sealed codec fl study rows) {prior row : Row}
    (last : rows.getLast? = some prior) (mine : prior.header.ownerId = me) (member : row ∈ rows) :
    row.header.ownerId = me :=
  (sealed.verified.owned row member prior (List.mem_of_getLast? last)).trans mine

section ready

variable {s : Journal} (now : ℕ) (request : Request fl) (sealed : Sealed codec fl study s.rows)
  (ordinary : request.claim = false) (clear : Clear me [request.key] s.rows)
  (ready : Ready me now request.atNs s)

include sealed ordinary clear ready

/-- A ready owner gets a record, or is told the budget is exceeded. -/
theorem newRow_ready (body blob : ByteArray) :
    if charged s.rows + (blob.size + 512) ≤ payloadLimit request.kind then
      ∃ row, newRow codec fl study me request body blob s.rows = .ok row
    else newRow codec fl study me request body blob s.rows = .error budgetExceeded := by
  obtain ⟨-, prior, last, mine, clock⟩ := ready
  obtain ⟨_, _, _, linked⟩ := sealed.facts (List.mem_of_getLast? last)
  have unfinished := (clear prior (List.mem_of_getLast? last) mine).2
  have placed : position codec fl me request s.rows.getLast? =
      .ok (prior.header.sequence + 1, prior.header.chainHash, prior.header.storedBytes) := by
    simp only [last, position, calculatedHash_ok]
    rw [if_neg (by simp [ordinary])]
    refine bind_ok_iff.mpr ⟨_, rfl, ?_⟩
    rw [if_neg (by simp [mine, linked.sealed]), if_neg unfinished, if_neg (not_lt.mpr clock)]
    rfl
  have untaken : ¬ (s.rows.any fun row => row.header.sequence = prior.header.sequence + 1) = true := by
    intro taken
    obtain ⟨row, member, same⟩ := List.any_eq_true.mp taken
    have := sealed.last_sequence last member
    simp only [decide_eq_true_eq] at same
    omega
  have bytes : charged s.rows = prior.header.storedBytes := by simp [charged, last]
  rw [bytes]
  simp only [newRow, placed, calculatedHash_ok]
  split
  next room =>
    refine bind_exists_iff.mpr ⟨_, rfl, ?_⟩
    rw [if_neg (Nat.not_lt.mpr room)]
    refine bind_exists_iff.mpr ⟨_, rfl, ?_⟩
    rw [if_neg untaken]
    exact ⟨_, rfl⟩
  next full =>
    show (if _ then _ else _) = _
    rw [if_pos (Nat.not_le.mp full)]
    rfl

omit ordinary in
theorem append_ready (small : (bodyOf fl request.payload).size ≤ maxChunkBytes) :
    append codec fl study me now request s = do
      let row ← newRow codec fl study me request (bodyOf fl request.payload)
        (codec.compress (bodyOf fl request.payload)) s.rows
      return (row.header, { s with rows := s.rows ++ [row] }) := by
  obtain ⟨held, prior, last, mine, -⟩ := ready
  have absent : s.rows.find? (fun row => row.header.key = request.key) = none := by
    refine List.find?_eq_none.mpr fun row member => ?_
    simpa using (clear row member (sealed.all_mine last mine member)).1
  simp only [append, canonical_ok fl request.payload.property]
  show (if maxChunkBytes < (bodyOf fl request.payload).size then _ else _) = _
  rw [if_neg (Nat.not_lt.mpr small), held]
  simp only [absent]
  rfl

/-- A record there is room for in its chunk but not below the limit is refused as such. -/
theorem append_exceeds (small : (bodyOf fl request.payload).size ≤ maxChunkBytes)
    (full : ¬ Fits codec request s.rows) :
    append codec fl study me now request s = .error budgetExceeded := by
  have outcome := newRow_ready now request sealed ordinary clear ready (bodyOf fl request.payload)
    (codec.compress (bodyOf fl request.payload))
  rw [if_neg fun limit => full ⟨small, limit⟩] at outcome
  rw [append_ready now request sealed clear ready small, outcome]
  rfl

end ready

/-- An append of a fresh key goes through exactly when its owner is ready and it has room. -/
theorem append_fresh_iff {s : Journal} (now : ℕ) (request : Request fl)
    (sealed : Sealed codec fl study s.rows) (ordinary : request.claim = false)
    (clear : Clear me [request.key] s.rows) :
    (∃ result, append codec fl study me now request s = .ok result) ↔
      Ready me now request.atNs s ∧ Fits codec request s.rows := by
  constructor
  · rintro ⟨⟨header, s'⟩, done⟩
    obtain ⟨held, outcome⟩ := append_ok done
    rcases outcome with ⟨-, row, member, rfl, key, -, -, mine, -⟩ | ⟨row, -, -, linked⟩
    · exact absurd (by simp [key]) (clear row member mine).1
    · cases last : s.rows.getLast? with
      | none =>
        have claim := (linked.first (List.getLast?_eq_none_iff.mp last)).1
        rw [ordinary] at claim
        cases claim
      | some prior =>
        obtain ⟨mine, -, clock, -, -, bytes⟩ := linked.next prior last
        have limit := linked.limited
        rw [bytes, linked.kind, Row.charge, linked.stored] at limit
        exact ⟨⟨held, prior, last, mine, linked.atNs ▸ clock⟩, linked.small,
          by simpa [charged, last] using limit⟩
  · rintro ⟨ready, small, limit⟩
    have outcome := newRow_ready now request sealed ordinary clear ready (bodyOf fl request.payload)
      (codec.compress (bodyOf fl request.payload))
    rw [if_pos limit] at outcome
    obtain ⟨row, made⟩ := outcome
    rw [append_ready now request sealed clear ready small, made]
    exact ⟨_, rfl⟩

theorem append_grows {s : Journal} (now : ℕ) (request : Request fl)
    (sealed : Sealed codec fl study s.rows) (ordinary : request.claim = false)
    (clear : Clear me [request.key] s.rows) (ready : Ready me now request.atNs s)
    (fits : Fits codec request s.rows) :
    ∃ row, append codec fl study me now request s =
        .ok (row.header, { s with rows := s.rows ++ [row] }) ∧
      Linked codec fl study s.rows me request row := by
  obtain ⟨⟨header, s'⟩, done⟩ := (append_fresh_iff now request sealed ordinary clear).mpr ⟨ready, fits⟩
  rcases (append_ok done).2 with ⟨-, row, member, rfl, key, -, -, mine, -⟩ | ⟨row, rfl, rfl, linked⟩
  · exact absurd (by simp [key]) (clear row member mine).1
  · exact ⟨row, done, linked⟩

/-! ## What a run keeps -/

/-- A journal the run's shutdown can still write to: it verifies, and the keys are unused. -/
structure Kept (codec : Codec) (fl : Floats) (study me : String) (keys : List String) (c : Capture) :
    Prop where
  sealed : Sealed codec fl study c.journal.rows
  clear : Clear me keys c.journal.rows

theorem Clear.only {keys : List String} {rows : List Row} (clear : Clear me keys rows) {key : String}
    (member : key ∈ keys) : Clear me [key] rows := fun row present mine =>
  ⟨fun same => (clear row present mine).1 (List.mem_singleton.mp same ▸ member),
    (clear row present mine).2⟩

theorem Clear.snoc {keys : List String} {rows : List Row} {row : Row} (clear : Clear me keys rows)
    (new : row.header.ownerId = me → row.header.key ∉ keys ∧ row.header.kind ≠ "terminal") :
    Clear me keys (rows ++ [row]) := by
  intro found member mine
  rcases List.mem_append.mp member with old | last
  · exact clear found old mine
  · cases List.mem_singleton.mp last
    exact new mine

variable (codec study me) in
theorem attempt_journal (now : ℕ) (request : Request fl) (c : Capture) :
    (attempt codec fl study me now request c).journal =
      appended codec fl study me now request c.journal := by
  unfold attempt appended
  split <;> simp_all [Capture.fail]

theorem Kept.attempt {keys : List String} {c : Capture} (kept : Kept codec fl study me keys c)
    (now : ℕ) (request : Request fl) (ordinary : request.claim = false) (key : request.key ∉ keys)
    (kind : request.kind ≠ "terminal") :
    Kept codec fl study me keys (attempt codec fl study me now request c) := by
  have journal := attempt_journal codec study me now request c
  rcases appended_step codec fl study me now request c.journal with
    same | ⟨row, -, rows, linked⟩
  · exact ⟨journal ▸ same ▸ kept.sealed, journal ▸ same ▸ kept.clear⟩
  · refine ⟨?_, ?_⟩
    · rw [journal, rows]
      exact kept.sealed.snoc (fun claim => by rw [ordinary] at claim; cases claim) linked
    · rw [journal, rows]
      exact kept.clear.snoc fun _ => ⟨linked.key ▸ key, linked.kind ▸ kind⟩

theorem Kept.rows {keys : List String} {c c' : Capture} (kept : Kept codec fl study me keys c)
    (same : c'.journal.rows = c.journal.rows) : Kept codec fl study me keys c' :=
  ⟨same ▸ kept.sealed, same ▸ kept.clear⟩

theorem heartbeat_rows (now : ℕ) (c : Capture) : (heartbeat me now c).journal.rows = c.journal.rows := by
  unfold heartbeat
  split
  · exact refresh_rows me now c.journal
  · rfl

theorem Act.attempt_owner {a : Act fl} {owner : String} {now : ℕ} {request : Request fl}
    (attempted : a.attempt = some (owner, now, request)) : a.owner = owner := by
  cases a <;> simp_all [Act.attempt, Act.owner]

theorem Kept.move {keys : List String} (keysApart : ∀ task : Task, task.key ∉ keys) {c : Capture}
    (kept : Kept codec fl study me keys c) (m : Move fl) :
    Kept codec fl study me keys (move codec fl study me c m) := by
  cases m with
  | work task payload now atNs => exact kept.attempt now _ rfl (keysApart task) task.kind_apart
  | heartbeat now => exact kept.rows (heartbeat_rows now c)
  | foreign a =>
    simp only [Confirmation.move]
    split
    next => exact kept
    next other =>
      rcases act_step codec study c.journal a with
        same | ⟨owner, now, request, row, attempted, genuine, -, rows, linked⟩
      · exact kept.rows same
      · refine ⟨?_, ?_⟩
        · simpa only [rows] using kept.sealed.snoc genuine linked
        · simpa only [rows] using kept.clear.snoc fun mine => absurd
            ((Act.attempt_owner attempted).trans (linked.owned.symm.trans mine)) other

theorem Kept.moves {keys : List String} (keysApart : ∀ task : Task, task.key ∉ keys) {c : Capture}
    (kept : Kept codec fl study me keys c) (run : List (Move fl)) :
    Kept codec fl study me keys (moves codec fl study me run c) := by
  induction run generalizing c with
  | nil => exact kept
  | cons m later ih => exact ih (kept.move keysApart m)

theorem closing_apart (task : Task) : task.key ∉ ["quality:final", "terminal"] := by
  simp [task.key_apart]

theorem terminal_apart (task : Task) : task.key ∉ ["terminal"] := by
  simp [task.key_apart]

/-! ## Sealing -/

variable (codec study me) in
/-- The run when its terminal record is to be appended, its final quality attempted. -/
def atTerminal (closing : Closing fl) (c : Capture) : Capture × Payload fl :=
  beforeTerminal codec study me closing
    (attempt codec fl study me closing.qualityAt.now (qualityRequest closing)
      (beforeQuality codec study me closing c))

/-- The owner holds its lease throughout the shutdown, and no clock goes back. -/
structure Held (codec : Codec) {fl : Floats} (study me : String) (closing : Closing fl)
    (c : Capture) : Prop where
  refreshed : lease me closing.refreshed.now
    (moves codec fl study me closing.refreshed.background c).journal = .ok ()
  quality : Ready me closing.qualityAt.now closing.qualityAt.atNs
    (beforeQuality codec study me closing c).journal
  terminal : Ready me closing.terminalAt.now closing.terminalAt.atNs
    (atTerminal codec study me closing c).1.journal

/-- Both records of the shutdown have room: the final quality below the bytes kept back, the
terminal record below the whole budget. -/
structure Room (codec : Codec) {fl : Floats} (study me : String) (closing : Closing fl)
    (c : Capture) : Prop where
  quality : Fits codec (qualityRequest closing) (beforeQuality codec study me closing c).journal.rows
  terminal : Fits codec (terminalRequest (atTerminal codec study me closing c).1.failure
    (atTerminal codec study me closing c).2 closing.terminalAt.atNs)
    (atTerminal codec study me closing c).1.journal.rows

theorem verified_journal (closing : Closing fl) (c : Capture) :
    (verified closing c).1.journal = c.journal := by
  unfold verified
  split <;> rfl

theorem Kept.beforeQuality {keys : List String} (keysApart : ∀ task : Task, task.key ∉ keys)
    {c : Capture} (kept : Kept codec fl study me keys c) (closing : Closing fl) :
    Kept codec fl study me keys (beforeQuality codec study me closing c) := by
  have fenced := kept.moves keysApart closing.refreshed.background
  exact (fenced.rows (refresh_rows me closing.refreshed.now _)).moves keysApart
    closing.qualityAt.background

theorem Kept.beforeTerminal {c : Capture} (kept : Kept codec fl study me ["terminal"] c)
    (closing : Closing fl) :
    Kept codec fl study me ["terminal"] (beforeTerminal codec study me closing c).1 := by
  have checked : Kept codec fl study me ["terminal"] (verified closing c).1 :=
    kept.rows (congrArg Journal.rows (verified_journal closing c))
  have done : Kept codec fl study me ["terminal"]
      (guarded codec study me closing (verified closing c).1) := by
    unfold guarded
    split
    · exact checked
    · split
      · exact (checked.moves terminal_apart _).attempt _ _ rfl (by simp [guardRequest])
          (by simp [guardRequest])
      · exact checked.rows rfl
  exact done.moves terminal_apart _

/-- The shutdown gets to its end exactly when the lease holds and both records have room. -/
theorem shutdown_ends_iff {c : Capture} (kept : Kept codec fl study me ["quality:final", "terminal"] c)
    (closing : Closing fl) :
    (shutdown codec study me closing c).2 = true ↔
      Held codec study me closing c ∧ Room codec study me closing c := by
  have open_ := kept.beforeQuality closing_apart closing
  have quality := append_fresh_iff closing.qualityAt.now (qualityRequest closing) open_.sealed rfl (open_.clear.only (by simp [qualityRequest]))
  have clear : Kept codec fl study me ["terminal"] (beforeQuality codec study me closing c) :=
    ⟨open_.sealed, open_.clear.only (by simp)⟩
  have last := (clear.attempt closing.qualityAt.now (qualityRequest closing) rfl
    (by simp [qualityRequest]) (by simp [qualityRequest])).beforeTerminal closing
  have terminal := append_fresh_iff closing.terminalAt.now
    (terminalRequest (atTerminal codec study me closing c).1.failure
      (atTerminal codec study me closing c).2 closing.terminalAt.atNs) last.sealed rfl
    (last.clear.only (by simp [terminalRequest]))
  cases fenced : lease me closing.refreshed.now
      (moves codec fl study me closing.refreshed.background c).journal with
  | error fault =>
    simp only [shutdown, fenced]
    refine ⟨fun ended => (nomatch ended), fun ⟨held, _⟩ => ?_⟩
    rw [held.refreshed] at fenced
    cases fenced
  | ok _ =>
    cases first : append codec fl study me closing.qualityAt.now (qualityRequest closing)
        (Confirmation.beforeQuality codec study me closing c).journal with
    | error fault =>
      simp only [shutdown, fenced, first]
      refine ⟨fun ended => (nomatch ended), fun ⟨held, room⟩ => ?_⟩
      obtain ⟨result, done⟩ := quality.mpr ⟨held.quality, room.quality⟩
      rw [done] at first
      cases first
    | ok result =>
      obtain ⟨header, journal⟩ := result
      have after : attempt codec fl study me closing.qualityAt.now (qualityRequest closing)
          (Confirmation.beforeQuality codec study me closing c) =
          { Confirmation.beforeQuality codec study me closing c with journal } := by
        simp only [attempt, first]
      have fits := quality.mp ⟨_, first⟩
      cases final : append codec fl study me closing.terminalAt.now
          (terminalRequest (atTerminal codec study me closing c).1.failure
            (atTerminal codec study me closing c).2 closing.terminalAt.atNs)
          (atTerminal codec study me closing c).1.journal with
      | error fault =>
        have ends : (shutdown codec study me closing c).2 = false := by
          simp only [atTerminal, after] at final
          simp only [shutdown, fenced, first, final]
        rw [ends]
        refine ⟨fun ended => (nomatch ended), fun ⟨held, room⟩ => ?_⟩
        obtain ⟨result, done⟩ := terminal.mpr ⟨held.terminal, room.terminal⟩
        exact nomatch done.symm.trans final
      | ok result =>
        have sealed := terminal.mp ⟨_, final⟩
        have ends : (shutdown codec study me closing c).2 = true := by
          simp only [atTerminal, after] at final
          simp only [shutdown, fenced, first, final]
        exact ⟨fun _ => ⟨⟨fenced, fits.1, sealed.1⟩, fits.2, sealed.2⟩, fun _ => ends⟩

theorem begin_kept (protocol : Payload fl) (identity : String) (checked now : ℕ) :
    Kept codec fl study me ["quality:final", "terminal"]
      (begin_ codec fl study me protocol identity checked now) := by
  refine ⟨runActs_sealed _, ?_⟩
  have claimed : (begin_ codec fl study me protocol identity checked now).journal =
      act codec fl study ⟨some ⟨me, checked⟩, []⟩ (.claim me now protocol identity checked) := rfl
  intro found member _
  rw [claimed] at member
  rcases act_step codec study ⟨some ⟨me, checked⟩, []⟩
    (.claim me now protocol identity checked) with same | ⟨_, _, _, row, attempted, -, -, rows, linked⟩
  · rw [same] at member
    cases member
  · cases attempted
    rw [rows] at member
    cases List.mem_singleton.mp member
    rw [linked.key, linked.kind]
    simp [claimRequest]

/-- The run leaves a terminal record of its own exactly when its shutdown gets to the end. -/
theorem shutdown_terminal_iff {c : Capture}
    (kept : Kept codec fl study me ["quality:final", "terminal"] c) (closing : Closing fl) :
    (∃ row ∈ (shutdown codec study me closing c).1.journal.rows, row.header.ownerId = me ∧
      row.header.kind = "terminal") ↔ (shutdown codec study me closing c).2 = true := by
  have unsealed {keys : List String} {rows : List Row} (clear : Clear me keys rows) :
      ¬ ∃ row ∈ rows, row.header.ownerId = me ∧ row.header.kind = "terminal" :=
    fun ⟨row, member, mine, terminal⟩ => (clear row member mine).2 terminal
  have open_ := kept.beforeQuality closing_apart closing
  have clear : Kept codec fl study me ["terminal"] (Confirmation.beforeQuality codec study me closing c) :=
    ⟨open_.sealed, open_.clear.only (by simp)⟩
  have last := (clear.attempt closing.qualityAt.now (qualityRequest closing) rfl
    (by simp [qualityRequest]) (by simp [qualityRequest])).beforeTerminal closing
  have fenced := kept.moves closing_apart closing.refreshed.background
  cases lost : lease me closing.refreshed.now
      (moves codec fl study me closing.refreshed.background c).journal with
  | error fault =>
    simp only [shutdown, lost]
    exact iff_of_false (unsealed fenced.clear) (by simp)
  | ok _ =>
    cases first : append codec fl study me closing.qualityAt.now (qualityRequest closing)
        (Confirmation.beforeQuality codec study me closing c).journal with
    | error fault =>
      simp only [shutdown, lost, first]
      exact iff_of_false (unsealed open_.clear) (by simp)
    | ok result =>
      obtain ⟨header, journal⟩ := result
      simp only [attempt, first] at last
      simp only [shutdown, lost, first]
      split
      next => exact iff_of_false (unsealed last.clear) (by simp)
      next final =>
        refine iff_of_true ?_ rfl
        rcases (append_ok final).2 with ⟨rfl, row, member, rfl, -, kind, -, mine, -⟩ |
          ⟨row, -, rfl, linked⟩
        · exact ⟨row, member, mine, kind⟩
        · exact ⟨row, by simp, linked.owned, linked.kind⟩

/-- One second of a run: the lease is refreshed and a chunk of frames appended. -/
def second_ (payload : Payload fl) (k : ℕ) : List (Move fl) :=
  [.heartbeat (k * 10 ^ 6), .work (.chunk (k + 1) .capture) payload (k * 10 ^ 6) (k * 10 ^ 9)]

def seconds (payload : Payload fl) (n : ℕ) : List (Move fl) :=
  (List.range n).flatMap (second_ payload)

/-- The run after `n` such seconds, its chunks all recorded. -/
structure Filled (codec : Codec) (fl : Floats) (study me : String) (bytes n : ℕ) (c : Capture) :
    Prop where
  sealed : Sealed codec fl study c.journal.rows
  lock : c.journal.lock = some ⟨me, (n - 1) * 10 ^ 6⟩
  last : ∃ prior, c.journal.rows.getLast? = some prior ∧ prior.header.ownerId = me ∧
    prior.header.atNs ≤ n * 10 ^ 9
  charged : charged c.journal.rows = bytes
  keys : ∀ row ∈ c.journal.rows, row.header.kind ≠ "terminal" ∧ (row.header.key = "protocol" ∨
    ∃ k ≤ n, row.header.key = (Task.chunk k .capture).key)

theorem lease_held {now acquired : ℕ} {s : Journal} (lock : s.lock = some ⟨me, acquired⟩)
    (fresh : acquired ≤ now ∧ now ≤ acquired + leaseMicros) : lease me now s = .ok () := by
  simp [lease, lock, fresh]

theorem Filled.heartbeat {bytes n : ℕ} {c : Capture} (filled : Filled codec fl study me bytes n c) :
    heartbeat me (n * 10 ^ 6) c =
      { c with journal := { c.journal with lock := some ⟨me, n * 10 ^ 6⟩ } } := by
  have held : lease me (n * 10 ^ 6) c.journal = .ok () :=
    lease_held filled.lock (by simp only [leaseMicros]; omega)
  simp only [Confirmation.heartbeat, refresh, held]

theorem chunk_key_apart (n : ℕ) : (Task.chunk n .capture).key ≠ "protocol" := by
  intro same
  have letters := congrArg String.toList same
  simp [Task.key, String.toList_append] at letters

theorem Filled.ready {bytes n : ℕ} {c : Capture} (filled : Filled codec fl study me bytes n c) :
    Ready me (n * 10 ^ 6) (n * 10 ^ 9) { c.journal with lock := some ⟨me, n * 10 ^ 6⟩ } :=
  ⟨lease_held rfl (by simp only [leaseMicros]; omega), filled.last⟩

theorem Filled.clear {bytes n : ℕ} {c : Capture} (filled : Filled codec fl study me bytes n c) :
    Clear me [(Task.chunk (n + 1) .capture).key] c.journal.rows := by
  refine fun row member _ => ⟨fun same => ?_, (filled.keys row member).1⟩
  have key := List.mem_singleton.mp same
  rcases (filled.keys row member).2 with first | ⟨k, small, chunk⟩
  · exact chunk_key_apart (n + 1) (key.symm.trans first)
  · have := Task.chunk_inj (chunk.symm.trans key)
    omega

theorem Filled.step {bytes n : ℕ} {c : Capture} {payload : Payload fl}
    (filled : Filled codec fl study me bytes n c)
    (small : (bodyOf fl payload).size ≤ maxChunkBytes)
    (room : bytes + ((codec.compress (bodyOf fl payload)).size + 512) ≤ payloadLimit "capture") :
    Filled codec fl study me (bytes + ((codec.compress (bodyOf fl payload)).size + 512)) (n + 1)
      (moves codec fl study me (second_ payload n) c) := by
  obtain ⟨row, done, linked⟩ := append_grows (s := { c.journal with lock := some ⟨me, n * 10 ^ 6⟩ })
    (n * 10 ^ 6) ((Task.chunk (n + 1) .capture).request fl payload (n * 10 ^ 9)) filled.sealed rfl
    filled.clear filled.ready ⟨small, by rw [filled.charged]; exact room⟩
  have after : moves codec fl study me (second_ payload n) c =
      { c with journal := ⟨some ⟨me, n * 10 ^ 6⟩, c.journal.rows ++ [row]⟩ } := by
    simp only [moves, second_, List.foldl_cons, List.foldl_nil, move, filled.heartbeat, attempt, done]
  obtain ⟨prior, last, mine, clock⟩ := filled.last
  obtain ⟨-, -, -, -, -, stored⟩ := linked.next prior last
  have total : prior.header.storedBytes = bytes := by
    have := filled.charged
    simpa [Confirmation.charged, last] using this
  rw [after]
  have genuine : ((Task.chunk (n + 1) .capture).request fl payload (n * 10 ^ 9)).Genuine := by
    intro claim
    cases claim
  refine ⟨filled.sealed.snoc genuine linked, by simp, ⟨row, by simp, linked.owned, ?_⟩, ?_, ?_⟩
  · rw [linked.atNs]
    simp only [Task.request]
    push_cast
    omega
  · simp [Confirmation.charged, stored, total, Row.charge, linked.stored, Task.request]
  · intro found member
    rcases List.mem_append.mp member with old | new
    · obtain ⟨kind, key | ⟨k, bound, chunk⟩⟩ := filled.keys found old
      · exact ⟨kind, .inl key⟩
      · exact ⟨kind, .inr ⟨k, by omega, chunk⟩⟩
    · cases List.mem_singleton.mp new
      rw [linked.kind]
      exact ⟨Task.kind_apart (.chunk (n + 1) .capture), .inr ⟨n + 1, le_refl _, linked.key⟩⟩

theorem moves_append (run more : List (Move fl)) (c : Capture) :
    moves codec fl study me (run ++ more) c = moves codec fl study me more (moves codec fl study me run c) := by
  simp [moves]

theorem Filled.seconds {bytes charge : ℕ} {c : Capture} {payload : Payload fl}
    (filled : Filled codec fl study me bytes 0 c)
    (small : (bodyOf fl payload).size ≤ maxChunkBytes)
    (size : charge = (codec.compress (bodyOf fl payload)).size + 512) (n : ℕ)
    (room : bytes + n * charge ≤ payloadLimit "capture") :
    Filled codec fl study me (bytes + n * charge) n (moves codec fl study me (seconds payload n) c) := by
  induction n with
  | zero => simpa [Confirmation.seconds, moves] using filled
  | succ n ih =>
    rw [Nat.succ_mul, ← Nat.add_assoc] at room ⊢
    have before := ih (by omega)
    rw [Confirmation.seconds, List.range_succ, List.flatMap_append, List.flatMap_singleton,
      ← Confirmation.seconds, moves_append]
    subst size
    exact before.step small room

/-- A shutdown with nothing beside it, all of it at second `n`. -/
def closingAt (quality report : Payload fl) (n : ℕ) : Closing fl where
  schema := "kraken-book-confirmation-report-v3"
  protocolHash := ""
  refreshed := ⟨[], n * 10 ^ 6, n * 10 ^ 9⟩
  quality := quality
  qualityAt := ⟨[], n * 10 ^ 6, n * 10 ^ 9⟩
  report := .ok report
  guard := .error "guard"
  guardAt := ⟨[], n * 10 ^ 6, n * 10 ^ 9⟩
  terminalAt := ⟨[], n * 10 ^ 6, n * 10 ^ 9⟩

/-- When a chunk runs out of budget and the final quality is no smaller, the run ends unsealed,
its lease held to the end. -/
theorem Filled.unsealed {bytes n : ℕ} {c : Capture} {payload quality : Payload fl}
    (filled : Filled codec fl study me bytes n c)
    (kept : Kept codec fl study me ["quality:final", "terminal"] c)
    (small : (bodyOf fl payload).size ≤ maxChunkBytes)
    (smallQuality : (bodyOf fl quality).size ≤ maxChunkBytes)
    (full : payloadLimit "capture" < bytes + ((codec.compress (bodyOf fl payload)).size + 512))
    (larger : (codec.compress (bodyOf fl payload)).size ≤ (codec.compress (bodyOf fl quality)).size)
    (report : Payload fl) :
    (moves codec fl study me (second_ payload n) c).exhausted = true ∧
    Held codec study me (closingAt quality report n) (moves codec fl study me (second_ payload n) c) ∧
    (shutdown codec study me (closingAt quality report n)
      (moves codec fl study me (second_ payload n) c)).2 = false := by
  have refused := append_exceeds (s := { c.journal with lock := some ⟨me, n * 10 ^ 6⟩ }) (n * 10 ^ 6)
    ((Task.chunk (n + 1) .capture).request fl payload (n * 10 ^ 9)) filled.sealed rfl filled.clear
    filled.ready small fun fits => by
      have limit := fits.limit
      rw [filled.charged] at limit
      exact absurd limit (Nat.not_le.mpr full)
  have after : moves codec fl study me (second_ payload n) c =
      { c with journal := { c.journal with lock := some ⟨me, n * 10 ^ 6⟩ } }.fail budgetExceeded := by
    simp only [moves, second_, List.foldl_cons, List.foldl_nil, move, filled.heartbeat, attempt,
      refused]
  generalize shape : Capture.fail _ _ = spent at after
  have journal : spent.journal = { c.journal with lock := some ⟨me, n * 10 ^ 6⟩ } := by
    rw [← shape]
    rfl
  have held : lease me (n * 10 ^ 6) spent.journal = .ok () := journal ▸ filled.ready.held
  have still : beforeQuality codec study me (closingAt quality report n) spent = spent := by
    have same : refresh me (n * 10 ^ 6) spent.journal = spent.journal := by
      rw [refresh, held, journal]
    simp only [beforeQuality, closingAt, moves, List.foldl_nil, same]
  have ready : Ready me (n * 10 ^ 6) (n * 10 ^ 9) spent.journal := journal ▸ filled.ready
  have quality_refused : append codec fl study me (n * 10 ^ 6)
      (qualityRequest (closingAt quality report n)) spent.journal = .error budgetExceeded := by
    refine append_exceeds (n * 10 ^ 6) (qualityRequest (closingAt quality report n)) ?_ rfl ?_ ready
      smallQuality fun fits => ?_
    · rw [journal]
      exact filled.sealed
    · rw [journal]
      exact kept.clear.only (by simp [qualityRequest])
    · have limit : Confirmation.charged spent.journal.rows + ((codec.compress (bodyOf fl quality)).size + 512) ≤
        payloadLimit "capture" := fits.limit
      rw [journal, filled.charged] at limit
      omega
  have terminal : (atTerminal codec study me (closingAt quality report n) spent).1.journal =
      spent.journal := by
    have gone : (spent.failure.or (some budgetExceeded.text)).isSome = true := by
      cases found : spent.failure <;> rfl
    simp only [atTerminal, still, attempt]
    rw [show (closingAt quality report n).qualityAt.now = n * 10 ^ 6 from rfl, quality_refused]
    simp only [beforeTerminal, verified, closingAt, guarded, gone, if_true, moves, List.foldl_nil,
      Capture.fail]
  rw [after]
  refine ⟨?_, ⟨held, by rw [still]; exact ready, by rw [terminal]; exact ready⟩, ?_⟩
  · rw [← shape]
    simp [Capture.fail]
  · have fenced : lease me (closingAt quality report n).refreshed.now
        (moves codec fl study me (closingAt quality report n).refreshed.background spent).journal =
        .ok () := held
    have first : append codec fl study me (closingAt quality report n).qualityAt.now
        (qualityRequest (closingAt quality report n))
        (beforeQuality codec study me (closingAt quality report n) spent).journal =
        .error budgetExceeded := by
      rw [still]
      exact quality_refused
    simp only [shutdown, fenced, first]

end sealing

/-- A chunk of no frames. -/
def idleChunk : Payload Floats.zero := ⟨[("records", .array [])], by simp, trivial, trivial⟩

/-- The least of a receiver's quality. -/
def idleQuality : Payload Floats.zero := ⟨[("connected", .bool false)], by simp, trivial, trivial⟩

def idleStart : Capture :=
  begin_ Codec.plain Floats.zero "study" "owner" ⟨[], by simp, trivial⟩ "" 0 0

theorem idleStart_filled : Filled Codec.plain Floats.zero "study" "owner" 546 0 idleStart where
  sealed := runActs_sealed _
  lock := by decide +kernel
  last := by
    have rows : idleStart.journal.rows.map (fun row => (row.header.ownerId, row.header.atNs)) =
        [("owner", 0)] := by decide +kernel
    cases shape : idleStart.journal.rows with
    | nil => simp [shape] at rows
    | cons row later =>
      cases later with
      | cons _ _ => simp [shape] at rows
      | nil =>
        simp only [shape, List.map_cons, List.map_nil, List.cons.injEq, Prod.mk.injEq] at rows
        exact ⟨row, rfl, rows.1.1, by simp [rows.1.2]⟩
  charged := by decide +kernel
  keys := by
    have rows : ∀ pair ∈ idleStart.journal.rows.map fun row => (row.header.kind, row.header.key),
        pair = ("protocol", "protocol") := by decide +kernel
    intro row member
    have pair := rows _ (List.mem_map_of_mem member)
    simp only [Prod.mk.injEq] at pair
    exact ⟨by rw [pair.1]; decide, .inl pair.2⟩

/-- A chunk a second from the start until none fits, and the second in which one is refused. -/
def idleRun : Capture :=
  moves Codec.plain Floats.zero "study" "owner" (seconds idleChunk 6116027 ++ second_ idleChunk 6116027)
    idleStart

def idleClosing : Closing Floats.zero := closingAt idleQuality idleQuality 6116027

-- With budget left, the same shutdown seals.
example : (shutdown Codec.plain "study" "owner" (closingAt idleQuality idleQuality 0) idleStart).2 =
    true := by decide +kernel

end TradeAgent.Confirmation
