import Mathlib.Data.List.Induction
import TradeAgent.EvidenceJournal
import TradeAgent.Library.JsonRoundTrip

/-! Every journal that appends can reach verifies: each record is linked to the records before it,
and the reader, which recomputes the links, accepts them whatever is appended while it reads. -/
namespace TradeAgent.Confirmation

open Procedure

section integrity

variable (codec : Codec) (fl : Floats) (study : String)

/-! ## Canonical text -/

def canonicalText (value : Json fl.Carrier) : String :=
  String.ofList (Json.write fl Json.compact value.sorted)

theorem canonical_ok {value : Json fl.Carrier} (distinct : value.Distinct) :
    canonical fl value = .ok (canonicalText fl value) := by
  simp only [canonical, jsonValue, Json.read_write fl Json.spaced_plain distinct]
  rfl

theorem dump_distinct (header : ChunkHeader) : (header.dump fl).Distinct := by
  refine ⟨?_, ?_⟩
  · simp
  · simp [Json.DistinctMembers, Json.Distinct]

def ChunkHeader.digest (header : ChunkHeader) : String :=
  codec.sha256 (canonicalText fl (header.dump fl)).toUTF8

theorem calculatedHash_ok (header : ChunkHeader) :
    header.calculatedHash codec fl = .ok (header.digest codec fl) := by
  simp only [ChunkHeader.calculatedHash, canonical_ok fl (dump_distinct fl header)]
  rfl

/-- The members of a payload in the order its text has them. -/
def ordered (payload : Payload fl) : List (String × Json fl.Carrier) :=
  (Json.sortedMembers payload.val).insertionSort fun a b => a.1 ≤ b.1

theorem sorted_payload (payload : Payload fl) :
    (Json.object payload.val).sorted = .object (ordered fl payload) := rfl

def bodyOf (payload : Payload fl) : ByteArray :=
  (canonicalText fl (.object payload.val)).toUTF8

theorem bodyOf_congr {fl : Floats} {payload payload' : Payload fl}
    (same : ordered fl payload = ordered fl payload') : bodyOf fl payload = bodyOf fl payload' := by
  rw [bodyOf, bodyOf, canonicalText, canonicalText, sorted_payload, sorted_payload, same]

theorem bodyOf_read (payload : Payload fl) :
    ((String.fromUTF8? (bodyOf fl payload)).bind fun text => Json.read fl text.toList) =
      some (.object (ordered fl payload)) := by
  have text : String.fromUTF8? (bodyOf fl payload) =
      some (canonicalText fl (.object payload.val)) := by
    simp only [String.fromUTF8?, bodyOf, String.toUTF8_eq_toByteArray,
      dif_pos (canonicalText fl (.object payload.val)).isValidUTF8]
    rfl
  rw [text, Option.bind_some, canonicalText, String.toList_ofList,
    Json.read_write fl Json.compact_plain (Json.sorted_distinct payload.property), sorted_payload]

theorem bodyOf_size (payload : Payload fl) : 0 < (bodyOf fl payload).size := by
  obtain ⟨c, later, shape, -⟩ := Json.write_opens fl Json.compact (Json.object payload.val).sorted
  have nonempty : canonicalText fl (.object payload.val) ≠ "" := by
    rw [canonicalText, shape]
    simp
  rw [bodyOf, String.toUTF8_eq_toByteArray, String.size_toByteArray, Nat.pos_iff_ne_zero]
  exact mt String.utf8ByteSize_eq_zero_iff.mp nonempty

theorem decodeBlob_compress {payload : Payload fl} (small : (bodyOf fl payload).size ≤ maxChunkBytes) :
    decodeBlob codec fl (codec.compress (bodyOf fl payload)) (bodyOf fl payload).size =
      .ok (ordered fl payload) := by
  have positive := bodyOf_size fl payload
  have inflated := codec.lossless (bodyOf fl payload) ((bodyOf fl payload).size + 1) (by omega)
  simp only [decodeBlob, inflated, bodyOf_read]
  simp [positive, small]
  rfl

/-! ## What an append can do -/

def Row.charge (row : Row) : ℕ := row.payload.size + 512

/-- A record as an append by `owner` makes it after the records of `rows`. -/
structure Linked (rows : List Row) (owner : String) (request : Request fl) (row : Row) : Prop where
  study : row.header.studyId = study
  key : row.header.key = request.key
  kind : row.header.kind = request.kind
  owned : row.header.ownerId = owner
  atNs : row.header.atNs = request.atNs
  fresh : ∀ other ∈ rows, other.header.key ≠ row.header.key
  sealed : row.header.digest codec fl = row.header.chainHash
  hashed : codec.sha256 row.payload = row.header.payloadHash
  stored : row.payload = codec.compress (bodyOf fl request.payload)
  decoded : row.header.decodedBytes = (bodyOf fl request.payload).size
  small : (bodyOf fl request.payload).size ≤ maxChunkBytes
  limited : row.header.storedBytes ≤ payloadLimit row.header.kind
  first : rows = [] → request.claim = true ∧ row.header.sequence = 0 ∧
    row.header.storedBytes = row.charge
  next : ∀ prior, rows.getLast? = some prior → prior.header.ownerId = owner ∧
    prior.header.kind ≠ "terminal" ∧ prior.header.atNs ≤ row.header.atNs ∧
    row.header.sequence = prior.header.sequence + 1 ∧
    row.header.previousHash = prior.header.chainHash ∧
    row.header.storedBytes = prior.header.storedBytes + row.charge

theorem payloadLimit_le (kind : String) : payloadLimit kind ≤ payloadBudget := by
  unfold payloadLimit
  split <;> simp

theorem Linked.bounded {codec : Codec} {fl : Floats} {study owner : String} {rows : List Row}
    {request : Request fl} {row : Row} (linked : Linked codec fl study rows owner request row) :
    row.header.storedBytes ≤ payloadBudget := linked.limited.trans (payloadLimit_le _)

theorem position_ok {codec : Codec} {fl : Floats} {owner : String} {request : Request fl}
    {rows : List Row} {sequence : ℤ} {root : String} {charged : ℕ}
    (found : position codec fl owner request rows.getLast? = .ok (sequence, root, charged)) :
    (rows = [] → request.claim = true ∧ sequence = 0 ∧ charged = 0) ∧
    ∀ prior, rows.getLast? = some prior → prior.header.ownerId = owner ∧
      prior.header.kind ≠ "terminal" ∧ prior.header.atNs ≤ request.atNs ∧
      sequence = prior.header.sequence + 1 ∧ root = prior.header.chainHash ∧
      charged = prior.header.storedBytes := by
  cases last : rows.getLast? with
  | none =>
    rw [last] at found
    simp only [position] at found
    refine ⟨fun _ => ?_, fun _ absent => by cases absent⟩
    split at found
    next claim =>
      split at found
      · cases found
      · cases found
        exact ⟨claim, rfl, rfl⟩
      · cases found
    next => cases found
  | some prior =>
    rw [last] at found
    simp only [position, calculatedHash_ok] at found
    refine ⟨fun empty => ?_, fun _ same => ?_⟩
    · rw [empty] at last
      cases last
    · cases same
      split at found
      · cases found
      obtain ⟨_, hash, found⟩ := bind_ok_iff.mp found
      cases hash
      split at found
      next => cases found
      next guarded =>
        split at found
        next => cases found
        next terminal =>
          split at found
          next => cases found
          next clock =>
            cases found
            exact ⟨by_contra fun other => guarded (.inl other), terminal, not_lt.mp clock, rfl, rfl,
              rfl⟩

theorem newRow_ok {codec : Codec} {fl : Floats} {study : String} {owner : String}
    {request : Request fl} {rows : List Row} {row : Row}
    (small : (bodyOf fl request.payload).size ≤ maxChunkBytes)
    (fresh : ∀ other ∈ rows, other.header.key ≠ request.key)
    (made : newRow codec fl study owner request (bodyOf fl request.payload)
      (codec.compress (bodyOf fl request.payload)) rows = .ok row) :
    Linked codec fl study rows owner request row := by
  simp only [newRow, calculatedHash_ok] at made
  obtain ⟨⟨sequence, root, charged⟩, placed, made⟩ := bind_ok_iff.mp made
  have place := position_ok placed
  split at made
  next => cases made
  next budget =>
    obtain ⟨_, hash, made⟩ := bind_ok_iff.mp made
    cases hash
    split at made
    next => cases made
    next =>
      cases made
      exact {
        study := rfl
        key := rfl
        kind := rfl
        owned := rfl
        atNs := rfl
        fresh := fresh
        sealed := rfl
        hashed := rfl
        stored := rfl
        decoded := rfl
        small := small
        limited := not_lt.mp budget
        first := fun empty => by
          obtain ⟨claim, start, none⟩ := place.1 empty
          exact ⟨claim, start, by simp [none, Row.charge]⟩
        next := fun prior last => by
          obtain ⟨mine, open_, clock, after, chain, bytes⟩ := place.2 prior last
          exact ⟨mine, open_, clock, after, chain, by simp [bytes, Row.charge]⟩ }

/-- An append returns a stored record of the same data and changes nothing, or stores one more. -/
theorem append_ok {codec : Codec} {fl : Floats} {study : String} {owner : String} {now : ℕ}
    {request : Request fl} {s s' : Journal} {header : ChunkHeader}
    (done : append codec fl study owner now request s = .ok (header, s')) :
    lease owner now s = .ok () ∧
    ((s' = s ∧ ∃ row ∈ s.rows, row.header = header ∧ header.key = request.key ∧
        header.kind = request.kind ∧ header.atNs = request.atNs ∧ header.ownerId = owner ∧
        header.payloadHash = codec.sha256 (codec.compress (bodyOf fl request.payload))) ∨
      ∃ row, row.header = header ∧ s' = { s with rows := s.rows ++ [row] } ∧
        Linked codec fl study s.rows owner request row) := by
  simp only [append, canonical_ok fl request.payload.property] at done
  obtain ⟨_, text, done⟩ := bind_ok_iff.mp done
  cases text
  split at done
  next => cases done
  next small =>
    obtain ⟨⟨⟩, held, done⟩ := bind_ok_iff.mp done
    refine ⟨held, ?_⟩
    split at done
    next existing found =>
      split at done
      next => cases done
      next agrees =>
        cases done
        simp only [not_or, not_not] at agrees
        have key := List.find?_some found
        exact .inl ⟨rfl, existing, List.mem_of_find?_eq_some found, rfl, by simpa using key,
          agrees.2.1, agrees.2.2.1, agrees.2.2.2, agrees.1⟩
    next absent =>
      obtain ⟨row, made, done⟩ := bind_ok_iff.mp done
      cases done
      have fresh : ∀ other ∈ s.rows, other.header.key ≠ request.key := fun other member same => by
        simpa [same] using List.find?_eq_none.mp absent other member
      exact .inr ⟨row, rfl, rfl, newRow_ok (not_lt.mp small) fresh made⟩

/-! ## Sealed journals -/

/-- A claim is stamped with a reading of the clock. -/
def Request.Genuine {fl : Floats} (request : Request fl) : Prop :=
  request.claim = true → 0 ≤ request.atNs

/-- Every record is linked to the records before it. -/
def Sealed (rows : List Row) : Prop :=
  ∀ i row, rows[i]? = some row → ∃ owner request,
    request.Genuine ∧ Linked codec fl study (rows.take i) owner request row

theorem take_last {rows : List Row} {i : ℕ} {prior : Row} (found : rows[i]? = some prior) :
    (rows.take (i + 1)).getLast? = some prior := by
  rw [List.take_add_one, found]
  simp

section sealed

variable {codec : Codec} {fl : Floats} {study : String} {rows : List Row}

theorem Sealed.snoc {owner : String} {request : Request fl} {row : Row}
    (before : Sealed codec fl study rows) (genuine : request.Genuine)
    (linked : Linked codec fl study rows owner request row) :
    Sealed codec fl study (rows ++ [row]) := by
  intro i found present
  by_cases old : i < rows.length
  · rw [List.getElem?_append_left old] at present
    rw [List.take_append_of_le_length old.le]
    exact before i found present
  · rw [List.getElem?_append_right (not_lt.mp old)] at present
    have at_ : i - rows.length = 0 := by
      by_contra past
      obtain ⟨k, shape⟩ := Nat.exists_eq_succ_of_ne_zero past
      simp [shape] at present
    rw [at_] at present
    cases present
    have last : i = rows.length := by omega
    subst last
    exact ⟨owner, request, genuine, by simpa using linked⟩

/-- What a record that has a predecessor shares with it. -/
theorem Sealed.adjacent (sealed : Sealed codec fl study rows) {i : ℕ} {prior row : Row}
    (before : rows[i]? = some prior) (here : rows[i + 1]? = some row) :
    prior.header.ownerId = row.header.ownerId ∧ prior.header.kind ≠ "terminal" ∧
    prior.header.atNs ≤ row.header.atNs ∧ row.header.sequence = prior.header.sequence + 1 ∧
    row.header.previousHash = prior.header.chainHash ∧
    row.header.storedBytes = prior.header.storedBytes + row.charge := by
  obtain ⟨owner, request, -, linked⟩ := sealed (i + 1) row here
  obtain ⟨mine, rest⟩ := linked.next prior (take_last before)
  exact ⟨mine.trans linked.owned.symm, rest⟩

theorem exists_prior {i : ℕ} {row : Row} (here : rows[i + 1]? = some row) :
    ∃ prior, rows[i]? = some prior := by
  have bound := (List.getElem?_eq_some_iff.mp here).1
  exact ⟨rows[i], List.getElem?_eq_getElem (by omega)⟩

theorem Sealed.first (sealed : Sealed codec fl study rows) {row : Row}
    (here : rows[0]? = some row) :
    0 ≤ row.header.atNs ∧ row.header.sequence = 0 ∧ row.header.storedBytes = row.charge := by
  obtain ⟨owner, request, genuine, linked⟩ := sealed 0 row here
  obtain ⟨claim, rest⟩ := linked.first rfl
  exact ⟨linked.atNs ▸ genuine claim, rest⟩

theorem Sealed.gapless (sealed : Sealed codec fl study rows) :
    ∀ {i : ℕ} {row : Row}, rows[i]? = some row → row.header.sequence = i := by
  intro i
  induction i with
  | zero => exact fun here => (sealed.first here).2.1
  | succ i ih =>
    intro row here
    obtain ⟨prior, before⟩ := exists_prior here
    rw [(sealed.adjacent before here).2.2.2.1, ih before]
    simp

theorem Sealed.accounted (sealed : Sealed codec fl study rows) :
    ∀ {i : ℕ} {row : Row}, rows[i]? = some row →
      row.header.storedBytes = ((rows.take (i + 1)).map Row.charge).sum := by
  intro i
  induction i with
  | zero =>
    intro row here
    rw [(sealed.first here).2.2, List.take_add_one, here]
    simp
  | succ i ih =>
    intro row here
    obtain ⟨prior, before⟩ := exists_prior here
    rw [(sealed.adjacent before here).2.2.2.2.2, ih before, List.take_add_one (i := i + 1), here]
    simp

theorem Sealed.owners (sealed : Sealed codec fl study rows) {first : Row}
    (start : rows[0]? = some first) :
    ∀ {i : ℕ} {row : Row}, rows[i]? = some row → first.header.ownerId = row.header.ownerId := by
  intro i
  induction i with
  | zero =>
    intro row here
    rw [start] at here
    cases here
    rfl
  | succ i ih =>
    intro row here
    obtain ⟨prior, before⟩ := exists_prior here
    exact (ih before).trans (sealed.adjacent before here).1

theorem Sealed.monotone (sealed : Sealed codec fl study rows) {i : ℕ} {prior : Row}
    (before : rows[i]? = some prior) :
    ∀ {j : ℕ} {row : Row}, rows[i + j]? = some row → prior.header.atNs ≤ row.header.atNs := by
  intro j
  induction j with
  | zero =>
    intro row here
    rw [Nat.add_zero, before] at here
    cases here
    exact le_refl _
  | succ j ih =>
    intro row here
    obtain ⟨middle, between⟩ := exists_prior (i := i + j) here
    exact (ih between).trans (sealed.adjacent between here).2.2.1

theorem Sealed.terminal (sealed : Sealed codec fl study rows) {i : ℕ} {row : Row}
    (here : rows[i]? = some row) (terminal : row.header.kind = "terminal") :
    i + 1 = rows.length := by
  have bound := (List.getElem?_eq_some_iff.mp here).1
  by_contra later
  have next : rows[i + 1]? = some rows[i + 1] := List.getElem?_eq_getElem (by omega)
  exact (sealed.adjacent here next).2.1 terminal

theorem Sealed.facts (sealed : Sealed codec fl study rows) {row : Row} (member : row ∈ rows) :
    ∃ owner request pre, Linked codec fl study pre owner request row := by
  obtain ⟨i, here⟩ := List.mem_iff_getElem?.mp member
  obtain ⟨owner, request, -, linked⟩ := sealed i row here
  exact ⟨owner, request, _, linked⟩

/-- A key names one record. -/
theorem Sealed.key_unique (sealed : Sealed codec fl study rows) {a b : Row} (first : a ∈ rows)
    (second : b ∈ rows) (same : a.header.key = b.header.key) : a = b := by
  obtain ⟨i, atI⟩ := List.mem_iff_getElem?.mp first
  obtain ⟨j, atJ⟩ := List.mem_iff_getElem?.mp second
  have earlier {i j : ℕ} {a b : Row} (atI : rows[i]? = some a) (atJ : rows[j]? = some b)
      (order : i < j) : a.header.key ≠ b.header.key := by
    obtain ⟨_, _, -, linked⟩ := sealed j b atJ
    refine linked.fresh a (List.mem_iff_getElem?.mpr ⟨i, ?_⟩)
    rw [List.getElem?_take_of_lt order]
    exact atI
  rcases lt_trichotomy i j with order | rfl | order
  · exact absurd same (earlier atI atJ order)
  · exact Option.some.inj (atI.symm.trans atJ)
  · exact absurd same.symm (earlier atJ atI order)

theorem Sealed.bounded (sealed : Sealed codec fl study rows) :
    (rows.map Row.charge).sum ≤ payloadBudget := by
  cases last : rows.getLast? with
  | none => simp [List.getLast?_eq_none_iff.mp last]
  | some row =>
    have length : 0 < rows.length := by
      cases rows with
      | nil => cases last
      | cons _ _ => simp
    have here : rows[rows.length - 1]? = some row := List.getLast?_eq_getElem? ▸ last
    obtain ⟨_, _, _, linked⟩ := sealed.facts (List.mem_of_getElem? here)
    have total := sealed.accounted here
    rw [Nat.sub_add_cancel length, List.take_length] at total
    exact total ▸ linked.bounded

/-! ## Reading back -/

def cursorAfter (pre : List Row) : Cursor :=
  match pre.getLast? with
  | none => Cursor.start
  | some row => ⟨row.header.sequence, some row.header.chainHash, row.header.storedBytes,
      some row.header.ownerId, row.header.atNs⟩

/-- What a read yields for a record. -/
def Selection.shown (selection : Selection) (row : Row) : ChunkHeader × Option ByteArray :=
  (row.header, if selection.wants row.header.kind then some row.payload else none)

theorem cursorAfter_take {i : ℕ} {row : Row} (here : rows[i]? = some row) :
    cursorAfter (rows.take (i + 1)) = ⟨row.header.sequence, some row.header.chainHash,
      row.header.storedBytes, some row.header.ownerId, row.header.atNs⟩ := by
  rw [cursorAfter, take_last here]

/-- A record that fits its cursor is accepted. -/
theorem checkRow_fits {cursor : Cursor} {row : Row} (selection : Selection)
    (sealed : row.header.digest codec fl = row.header.chainHash)
    (hashed : codec.sha256 row.payload = row.header.payloadHash)
    (ofStudy : row.header.studyId = study)
    (bounded : row.header.storedBytes ≤ payloadBudget)
    (sequence : row.header.sequence = cursor.sequence + 1)
    (root : ∀ hash ∈ cursor.expectedRoot, row.header.previousHash = hash)
    (owner : ∀ id ∈ cursor.owner, id = row.header.ownerId)
    (clock : cursor.lastAt ≤ row.header.atNs)
    (charged : row.header.storedBytes = cursor.charged + row.charge) :
    checkRow codec fl study selection cursor row =
      .ok (⟨row.header.sequence, some row.header.chainHash, row.header.storedBytes,
        some row.header.ownerId, row.header.atNs⟩, selection.shown row) := by
  have growing : ¬ row.header.storedBytes ≤ cursor.charged := by
    simp only [Row.charge] at charged
    omega
  have noRoot : cursor.expectedRoot.any (row.header.previousHash ≠ ·) = false := by
    cases found : cursor.expectedRoot with
    | none => rfl
    | some hash => simp [root hash found]
  have noOwner : cursor.owner.any (· ≠ row.header.ownerId) = false := by
    cases found : cursor.owner with
    | none => rfl
    | some id => simp [owner id found]
  have bytes : row.header.storedBytes = cursor.charged + row.payload.size + 512 := by
    rw [charged, Row.charge, Nat.add_assoc]
  have unbroken : ¬ (row.header.sequence ≠ cursor.sequence + 1 ∨ row.header.studyId ≠ study ∨
      row.header.digest codec fl ≠ row.header.chainHash ∨
      cursor.expectedRoot.any (row.header.previousHash ≠ ·) = true ∨
      cursor.owner.any (· ≠ row.header.ownerId) = true ∨ row.header.atNs < cursor.lastAt ∨
      row.header.storedBytes ≤ cursor.charged ∨ payloadBudget < row.header.storedBytes) := by
    rintro (gap | other | broken | unchained | foreign | back | small | large)
    · exact gap sequence
    · exact other ofStudy
    · exact broken sealed
    · exact absurd unchained (by rw [noRoot]; decide)
    · exact absurd foreign (by rw [noOwner]; decide)
    · omega
    · exact growing small
    · exact absurd large (Nat.not_lt.mpr bounded)
  simp only [checkRow, calculatedHash_ok]
  refine bind_ok_iff.mpr ⟨_, rfl, ?_⟩
  rw [if_neg unbroken]
  by_cases wanted : selection.wants row.header.kind = true
  · rw [if_pos wanted, if_neg (not_not.mpr hashed), if_neg (not_not.mpr bytes), Selection.shown,
      if_pos wanted]
    rfl
  · rw [if_neg wanted, Selection.shown, if_neg wanted]
    rfl

theorem Sealed.checkRow (sealed : Sealed codec fl study rows) (selection : Selection) {i : ℕ}
    {row : Row} (here : rows[i]? = some row) :
    checkRow codec fl study selection (cursorAfter (rows.take i)) row =
      .ok (cursorAfter (rows.take (i + 1)), selection.shown row) := by
  obtain ⟨_, _, _, linked⟩ := sealed.facts (List.mem_of_getElem? here)
  rw [cursorAfter_take here]
  cases i with
  | zero =>
    obtain ⟨clock, start, charge⟩ := sealed.first here
    exact checkRow_fits selection linked.sealed linked.hashed linked.study linked.bounded
      (by rw [start]; rfl) (by simp [cursorAfter, Cursor.start]) (by simp [cursorAfter, Cursor.start])
      (by simp only [cursorAfter, Cursor.start, List.take_zero, List.getLast?_nil]; omega)
      (by simp [cursorAfter, Cursor.start, charge])
  | succ i =>
    obtain ⟨prior, before⟩ := exists_prior here
    obtain ⟨owner, -, clock, sequence, root, charge⟩ := sealed.adjacent before here
    rw [cursorAfter_take before]
    exact checkRow_fits selection linked.sealed linked.hashed linked.study linked.bounded sequence
      (by simpa using root) (by simpa using owner) clock charge

theorem Sealed.checkRows (sealed : Sealed codec fl study rows) (selection : Selection) :
    ∀ (found pre later : List Row), rows = pre ++ (found ++ later) →
      checkRows codec fl study selection (cursorAfter pre) found =
        .ok (cursorAfter (pre ++ found), found.map selection.shown)
  | [], pre, later, _ => by
    simp only [List.append_nil, Confirmation.checkRows]
    rfl
  | row :: found, pre, later, shape => by
    have here : rows[pre.length]? = some row := by simp [shape]
    have before : rows.take pre.length = pre := by simp [shape]
    have through : rows.take (pre.length + 1) = pre ++ [row] := by
      rw [List.take_add_one, before, here]
      rfl
    have one := sealed.checkRow selection here
    rw [before, through] at one
    have rest := Sealed.checkRows sealed selection found (pre ++ [row]) later (by simp [shape])
    simp only [Confirmation.checkRows, one]
    refine bind_ok_iff.mpr ⟨_, rfl, bind_ok_iff.mpr ⟨_, rest, ?_⟩⟩
    simp
    rfl

/-- A page past the first `k` records holds the next eight of them, however many records have
been appended since the read began. -/
theorem Sealed.page {view : List Row} (sealed : Sealed codec fl study view) (grown : rows <+: view)
    {k : ℕ} (inside : k ≤ rows.length) :
    page view ((k : ℤ) - 1) ((rows.length : ℤ) - 1) = (rows.drop k).take 8 := by
  obtain ⟨later, shape⟩ := grown
  have number (i : ℕ) (row : Row) (here : view[i]? = some row) : row.header.sequence = i :=
    sealed.gapless here
  have old : (rows.take k).filter (fun row => (k : ℤ) - 1 < row.header.sequence ∧
      row.header.sequence ≤ (rows.length : ℤ) - 1) = [] := by
    refine List.filter_eq_nil_iff.mpr fun row member => ?_
    obtain ⟨i, here⟩ := List.mem_iff_getElem?.mp member
    obtain ⟨bound, value⟩ := List.getElem?_eq_some_iff.mp here
    rw [List.length_take] at bound
    have sequence := number i row (by
      rw [← shape, List.getElem?_append_left (by omega), ← here,
        List.getElem?_take_of_lt (by omega)])
    simp only [decide_eq_true_eq]
    omega
  have kept : (rows.drop k).filter (fun row => (k : ℤ) - 1 < row.header.sequence ∧
      row.header.sequence ≤ (rows.length : ℤ) - 1) = rows.drop k := by
    refine List.filter_eq_self.mpr fun row member => ?_
    obtain ⟨i, here⟩ := List.mem_iff_getElem?.mp member
    rw [List.getElem?_drop] at here
    have bound := (List.getElem?_eq_some_iff.mp here).1
    have sequence := number (k + i) row (by
      rw [← shape, List.getElem?_append_left bound, here])
    simp only [decide_eq_true_eq]
    omega
  have new : later.filter (fun row => (k : ℤ) - 1 < row.header.sequence ∧
      row.header.sequence ≤ (rows.length : ℤ) - 1) = [] := by
    refine List.filter_eq_nil_iff.mpr fun row member => ?_
    obtain ⟨i, here⟩ := List.mem_iff_getElem?.mp member
    have sequence := number (rows.length + i) row (by
      rw [← shape, List.getElem?_append_right (by omega), ← here]
      congr 1
      omega)
    simp only [decide_eq_true_eq]
    omega
  rw [Confirmation.page, ← shape, List.filter_append]
  conv_lhs => rw [← List.take_append_drop k rows]
  rw [List.filter_append, List.length_append, List.length_take, List.length_drop,
    Nat.min_eq_left inside, Nat.add_sub_cancel' inside, old, kept, new, List.nil_append,
    List.append_nil]

theorem cursorAfter_sequence (sealed : Sealed codec fl study rows) {k : ℕ}
    (inside : k ≤ rows.length) : (cursorAfter (rows.take k)).sequence = (k : ℤ) - 1 := by
  cases k with
  | zero => rfl
  | succ k =>
    have here : rows[k]? = some rows[k] := List.getElem?_eq_getElem (by omega)
    rw [cursorAfter_take here]
    have := sealed.gapless here
    simp only
    omega

theorem Sealed.readPages (sealed : Sealed codec fl study rows) (selection : Selection)
    {views : ℕ → List Row} (each : ∀ n, Sealed codec fl study (views n))
    (grown : ∀ n, rows <+: views n) :
    ∀ (fuel query k : ℕ), k ≤ rows.length → rows.length - k < fuel →
      readPages codec fl study selection views ((rows.length : ℤ) - 1) fuel query
        (cursorAfter (rows.take k)) = .ok ((rows.drop k).map selection.shown)
  | 0, _, _, _, enough => absurd enough (Nat.not_lt_zero _)
  | fuel + 1, query, k, inside, enough => by
    have headers := (each query).page (grown query) inside
    have sequence := cursorAfter_sequence sealed inside
    rw [Confirmation.readPages]
    simp only [sequence, headers]
    by_cases done : k = rows.length
    · subst done
      simp
      rfl
    · have nonempty : ((rows.drop k).take 8).isEmpty = false := by
        cases shape : rows.drop k with
        | nil =>
          have := List.drop_eq_nil_iff.mp shape
          omega
        | cons _ _ => rfl
      have read := sealed.checkRows selection ((rows.drop k).take 8) (rows.take k)
        ((rows.drop k).drop 8) (by simp)
      have through : rows.take k ++ (rows.drop k).take 8 = rows.take (min (k + 8) rows.length) := by
        rw [← List.take_add]
        exact List.take_eq_take_min
      have rest := Sealed.readPages sealed selection each grown fuel (query + 1)
        (min (k + 8) rows.length) (by omega) (by omega)
      rw [through] at read
      rw [if_neg (by simp [nonempty])]
      refine bind_ok_iff.mpr ⟨_, read, bind_ok_iff.mpr ⟨_, rest, ?_⟩⟩
      have split : rows.drop (min (k + 8) rows.length) = (rows.drop k).drop 8 := by
        rw [List.drop_drop]
        by_cases short : k + 8 ≤ rows.length
        · rw [Nat.min_eq_left short]
        · rw [Nat.min_eq_right (by omega), List.drop_length, List.drop_eq_nil_of_le (by omega)]
      rw [split, ← List.map_append, List.take_append_drop]
      rfl

/-- The reader returns every record the first query saw. -/
theorem Sealed.blobChunks (selection : Selection) {views : ℕ → List Row}
    (each : ∀ n, Sealed codec fl study (views n)) (grown : ∀ n, views 0 <+: views n) :
    blobChunks codec fl study selection views = .ok ((views 0).map selection.shown) := by
  cases last : (views 0).getLast? with
  | none =>
    rw [Confirmation.blobChunks, last, List.getLast?_eq_none_iff.mp last]
    rfl
  | some row =>
    have length : 0 < (views 0).length := by
      cases shape : views 0 with
      | nil => simp [shape] at last
      | cons _ _ => simp
    have sequence : row.header.sequence = ((views 0).length - 1 : ℕ) :=
      (each 0).gapless (List.getLast?_eq_getElem? ▸ last)
    have end_ : row.header.sequence = ((views 0).length : ℤ) - 1 := by omega
    have all := (each 0).readPages selection each grown (row.header.sequence.toNat + 2) 1 0
      (by omega) (by omega)
    rw [Confirmation.blobChunks, last]
    simp only [end_] at all ⊢
    exact all

end sealed

/-! ## Runs -/

/-- What a journal that verifies has. -/
structure Verified (rows : List Row) : Prop where
  gapless : ∀ (i : ℕ) (row : Row), rows[i]? = some row → row.header.sequence = i
  chained : ∀ (i : ℕ) (prior row : Row), rows[i]? = some prior → rows[i + 1]? = some row →
    row.header.previousHash = prior.header.chainHash
  sealed : ∀ row ∈ rows, row.header.calculatedHash codec fl = .ok row.header.chainHash
  owned : ∀ a ∈ rows, ∀ b ∈ rows, a.header.ownerId = b.header.ownerId
  monotone : rows.Pairwise fun a b => a.header.atNs ≤ b.header.atNs
  accounted : ∀ (i : ℕ) (row : Row), rows[i]? = some row →
    row.header.storedBytes = ((rows.take (i + 1)).map Row.charge).sum
  bounded : (rows.map Row.charge).sum ≤ payloadBudget
  terminal : ∀ (i : ℕ) (row : Row), rows[i]? = some row → row.header.kind = "terminal" → i + 1 = rows.length

/-- The append that stored a record: every record of a run has exactly this history. -/
structure Origin (acts : List (Act fl)) (row : Row) (before : List (Act fl)) (owner : String)
    (now : ℕ) (request : Request fl) : Prop where
  attempted : ∃ a after, acts = before ++ a :: after ∧ a.attempt = some (owner, now, request) ∧
    append codec fl study owner now request (runActs codec fl study before) =
      .ok (row.header, runActs codec fl study (before ++ [a])) ∧
    (runActs codec fl study (before ++ [a])).rows = (runActs codec fl study before).rows ++ [row]
  linked : Linked codec fl study (runActs codec fl study before).rows owner request row

/-- A request for what a record already holds. -/
structure Identical (owner : String) (request : Request fl) (row : Row) : Prop where
  key : row.header.key = request.key
  kind : row.header.kind = request.kind
  atNs : row.header.atNs = request.atNs
  owned : row.header.ownerId = owner
  payload : ∃ members, decodeBlob codec fl row.payload row.header.decodedBytes = .ok members ∧
    Json.Same (.object request.payload.val) (.object members)

/-- A request under a stored key for something else. Two payloads conflict as far as the digest
tells their compressed texts apart. -/
structure Conflicting (owner : String) (request : Request fl) (row : Row) : Prop where
  key : row.header.key = request.key
  differs : row.header.kind ≠ request.kind ∨ row.header.atNs ≠ request.atNs ∨
    row.header.ownerId ≠ owner ∨ (Function.Injective codec.sha256 ∧
      ∀ members, decodeBlob codec fl row.payload row.header.decodedBytes = .ok members →
        ¬ Json.Same (.object request.payload.val) (.object members))

theorem appended_step (owner : String) (now : ℕ) (request : Request fl) (s : Journal) :
    (appended codec fl study owner now request s).rows = s.rows ∨
    ∃ row, append codec fl study owner now request s =
        .ok (row.header, appended codec fl study owner now request s) ∧
      (appended codec fl study owner now request s).rows = s.rows ++ [row] ∧
      Linked codec fl study s.rows owner request row := by
  cases done : append codec fl study owner now request s with
  | error fault => exact .inl (by rw [appended, done])
  | ok result =>
    obtain ⟨header, s'⟩ := result
    have after : appended codec fl study owner now request s = s' := by rw [appended, done]
    rcases (append_ok done).2 with ⟨same, -⟩ | ⟨row, rfl, same, linked⟩
    · exact .inl (by rw [after, same])
    · exact .inr ⟨row, by rw [after], by rw [after, same], linked⟩

section runs

variable {codec : Codec} {fl : Floats} {study : String}

theorem acquireWorkerLock_rows (owner : String) (now : ℕ) (s : Journal) :
    (acquireWorkerLock owner now s).rows = s.rows := by
  unfold acquireWorkerLock
  split
  · rfl
  · split <;> rfl

theorem releaseWorkerLock_rows (owner : String) (s : Journal) :
    (releaseWorkerLock owner s).rows = s.rows := by
  unfold releaseWorkerLock
  split
  · rfl
  · split <;> rfl

theorem refresh_rows (owner : String) (now : ℕ) (s : Journal) :
    (refresh owner now s).rows = s.rows := by
  unfold refresh
  split <;> rfl

variable (codec study) in
/-- An act leaves the records alone, or is an append that stored one more. -/
theorem act_step (s : Journal) (a : Act fl) :
    (act codec fl study s a).rows = s.rows ∨
    ∃ owner now request row, a.attempt = some (owner, now, request) ∧ request.Genuine ∧
      append codec fl study owner now request s = .ok (row.header, act codec fl study s a) ∧
      (act codec fl study s a).rows = s.rows ++ [row] ∧
      Linked codec fl study s.rows owner request row := by
  cases a with
  | acquire owner now => exact .inl (acquireWorkerLock_rows owner now s)
  | release owner => exact .inl (releaseWorkerLock_rows owner s)
  | refresh owner now => exact .inl (refresh_rows owner now s)
  | claim owner now protocol identity checked =>
    rcases appended_step codec fl study owner now _ s with same | ⟨row, done, rows, linked⟩
    · exact .inl same
    · refine .inr ⟨owner, now, _, row, rfl, fun _ => ?_, done, rows, linked⟩
      simp only [claimRequest]
      omega
  | append owner now kind key payload atNs =>
    rcases appended_step codec fl study owner now _ s with same | ⟨row, done, rows, linked⟩
    · exact .inl same
    · exact .inr ⟨owner, now, _, row, rfl, (fun claim => nomatch claim), done, rows, linked⟩

theorem runActs_snoc (acts : List (Act fl)) (a : Act fl) :
    runActs codec fl study (acts ++ [a]) = act codec fl study (runActs codec fl study acts) a := by
  simp [runActs]

theorem runActs_sealed (acts : List (Act fl)) :
    Sealed codec fl study (runActs codec fl study acts).rows := by
  induction acts using List.reverseRecOn with
  | nil => exact fun i row here => by simp [runActs, Journal.empty] at here
  | append_singleton acts a ih =>
    rw [runActs_snoc]
    rcases act_step codec study (runActs codec fl study acts) a with
      same | ⟨owner, now, request, row, -, genuine, -, rows, linked⟩
    · rw [same]
      exact ih
    · rw [rows]
      exact ih.snoc genuine linked

/-- Records are only ever added. -/
theorem runActs_prefix (acts more : List (Act fl)) :
    (runActs codec fl study acts).rows <+: (runActs codec fl study (acts ++ more)).rows := by
  induction more using List.reverseRecOn with
  | nil => simp
  | append_singleton more a ih =>
    rw [← List.append_assoc, runActs_snoc]
    refine ih.trans ?_
    rcases act_step codec study (runActs codec fl study (acts ++ more)) a with
      same | ⟨_, _, _, row, -, -, -, rows, -⟩
    · exact ⟨[], by rw [same, List.append_nil]⟩
    · rw [rows]
      exact List.prefix_append _ _

theorem runActs_origin (acts : List (Act fl)) {row : Row}
    (member : row ∈ (runActs codec fl study acts).rows) :
    ∃ before owner now request, Origin codec fl study acts row before owner now
      request := by
  induction acts using List.reverseRecOn with
  | nil => simp [runActs, Journal.empty] at member
  | append_singleton acts a ih =>
    have older (member : row ∈ (runActs codec fl study acts).rows) : ∃ before owner now request,
        Origin codec fl study (acts ++ [a]) row before owner now request := by
      obtain ⟨before, owner, now, request, ⟨b, after, shape, rest⟩, linked⟩ := ih member
      exact ⟨before, owner, now, request, ⟨b, after ++ [a], by simp [shape], rest⟩, linked⟩
    rw [runActs_snoc] at member
    rcases act_step codec study (runActs codec fl study acts) a with
      same | ⟨owner, now, request, added, attempt, -, done, rows, linked⟩
    · exact older (same ▸ member)
    · rw [rows] at member
      rcases List.mem_append.mp member with old | new
      · exact older old
      · cases List.mem_singleton.mp new
        exact ⟨acts, owner, now, request,
          ⟨a, [], rfl, attempt, by rw [runActs_snoc]; exact done, by rw [runActs_snoc]; exact rows⟩,
          linked⟩

/-! ## Retries -/

theorem Codec.compress_injective {a b : ByteArray} (same : codec.compress a = codec.compress b) :
    a = b := by
  have left := codec.lossless a (max a.size b.size + 1) (by omega)
  have right := codec.lossless b (max a.size b.size + 1) (by omega)
  rw [same, right] at left
  exact (congrArg Inflated.data (Option.some.inj left)).symm

theorem Linked.decode {pre : List Row} {owner : String} {request : Request fl} {row : Row}
    (linked : Linked codec fl study pre owner request row) :
    decodeBlob codec fl row.payload row.header.decodedBytes = .ok (ordered fl request.payload) := by
  rw [linked.stored, linked.decoded]
  exact decodeBlob_compress codec fl linked.small

/-- The record an identical request names has that request's compressed text. -/
theorem Identical.blob {pre : List Row} {owner stored : String} {request origin : Request fl}
    {row : Row} (linked : Linked codec fl study pre stored origin row)
    (identical : Identical codec fl owner request row) :
    row.payload = codec.compress (bodyOf fl request.payload) ∧
      (bodyOf fl request.payload).size ≤ maxChunkBytes := by
  obtain ⟨members, decoded, same⟩ := identical.payload
  rw [linked.decode] at decoded
  cases decoded
  have order : ordered fl request.payload = ordered fl origin.payload := by
    have forms := Json.sorted_congr request.payload.property same
    have again := Json.sorted_congr origin.payload.property
      (Json.same_sorted (.object origin.payload.val))
    rw [sorted_payload] at again
    rw [← again, sorted_payload] at forms
    exact Json.object.inj forms
  rw [bodyOf_congr order]
  exact ⟨linked.stored, linked.small⟩

theorem append_identical {s : Journal} (sealed : Sealed codec fl study s.rows) {owner : String}
    {now : ℕ} {request : Request fl} {row : Row} (member : row ∈ s.rows)
    (identical : Identical codec fl owner request row) (held : lease owner now s = .ok ()) :
    append codec fl study owner now request s = .ok (row.header, s) := by
  obtain ⟨_, _, _, linked⟩ := sealed.facts member
  obtain ⟨blob, small⟩ := identical.blob linked
  have found : s.rows.find? (fun other => other.header.key = request.key) = some row := by
    cases search : s.rows.find? fun other => other.header.key = request.key with
    | none =>
      have missing := List.find?_eq_none.mp search row member
      exact absurd identical.key (by simpa using missing)
    | some other =>
      have key : other.header.key = request.key := by simpa using List.find?_some search
      rw [sealed.key_unique (List.mem_of_find?_eq_some search) member
        (key.trans identical.key.symm)]
  have hash : row.header.payloadHash = codec.sha256 (codec.compress (bodyOf fl request.payload)) := by
    rw [← linked.hashed, blob]
  simp only [append, canonical_ok fl request.payload.property]
  refine bind_ok_iff.mpr ⟨_, rfl, ?_⟩
  rw [← bodyOf, if_neg (Nat.not_lt.mpr small)]
  refine bind_ok_iff.mpr ⟨_, held, ?_⟩
  simp [found, hash, identical.kind, identical.atNs, identical.owned]
  rfl

theorem append_conflicting (now : ℕ) {s : Journal} (sealed : Sealed codec fl study s.rows)
    {owner : String} {request : Request fl} {row : Row} (member : row ∈ s.rows)
    (conflict : Conflicting codec fl owner request row) :
    ∃ fault, append codec fl study owner now request s = .error fault := by
  cases done : append codec fl study owner now request s with
  | error fault => exact ⟨fault, rfl⟩
  | ok result =>
    obtain ⟨header, s'⟩ := result
    obtain ⟨_, origin, _, linked⟩ := sealed.facts member
    rcases (append_ok done).2 with ⟨-, other, stored, rfl, key, kind, atNs, owned, hash⟩ |
      ⟨added, -, -, fresh⟩
    · obtain rfl := sealed.key_unique stored member (key.trans conflict.key.symm)
      rcases conflict.differs with kind' | atNs' | owned' | ⟨injective, payload⟩
      · exact absurd kind kind'
      · exact absurd atNs atNs'
      · exact absurd owned owned'
      · have blob : codec.compress (bodyOf fl request.payload) = other.payload :=
          injective (hash.symm.trans linked.hashed.symm)
        have body := codec.compress_injective (blob.trans linked.stored)
        have small : (bodyOf fl request.payload).size ≤ maxChunkBytes := body ▸ linked.small
        have read := decodeBlob_compress codec fl small
        rw [blob, body, ← linked.decoded] at read
        exact absurd (Json.same_sorted (.object request.payload.val)) (payload _ read)
    · exact absurd (conflict.key.trans fresh.key.symm) (fresh.fresh row member)

/-! ## Integrity -/

theorem Sealed.verified {rows : List Row} (sealed : Sealed codec fl study rows) :
    Verified codec fl rows where
  gapless _ _ here := sealed.gapless here
  chained _ _ _ before here := (sealed.adjacent before here).2.2.2.2.1
  sealed row member := by
    obtain ⟨_, _, _, linked⟩ := sealed.facts member
    rw [calculatedHash_ok, linked.sealed]
  owned a first b second := by
    obtain ⟨i, atI⟩ := List.mem_iff_getElem?.mp first
    obtain ⟨j, atJ⟩ := List.mem_iff_getElem?.mp second
    have nonempty := List.length_pos_of_mem first
    have start : rows[0]? = some rows[0] := List.getElem?_eq_getElem nonempty
    exact (sealed.owners start atI).symm.trans (sealed.owners start atJ)
  monotone := by
    refine List.pairwise_iff_getElem.mpr fun i j left right order => ?_
    refine sealed.monotone (List.getElem?_eq_getElem left) (j := j - i) ?_
    rw [Nat.add_sub_cancel' order.le]
    exact List.getElem?_eq_getElem right
  accounted _ _ here := sealed.accounted here
  bounded := sealed.bounded
  terminal _ _ here kind := sealed.terminal here kind

/-- Whatever owners attempt and wherever they stop, the journal verifies and reads back whole, even
while more is appended. Each record decodes to the payload of the append that stored it; an
identical append returns the record and a conflicting one fails, and neither changes anything. -/
theorem journal_integrity (codec : Codec) (fl : Floats) (study : String) (acts : List (Act fl)) :
    Verified codec fl (runActs codec fl study acts).rows ∧
    (∀ (selection : Selection) (more : ℕ → List (Act fl)), more 0 = [] →
      blobChunks codec fl study selection
          (fun query => (runActs codec fl study (acts ++ more query)).rows) =
        .ok ((runActs codec fl study acts).rows.map selection.shown)) ∧
    (∀ row ∈ (runActs codec fl study acts).rows, ∃ before owner now request members,
      Origin codec fl study acts row before owner now request ∧
      decodeBlob codec fl row.payload row.header.decodedBytes = .ok members ∧
      Json.Same (.object request.payload.val) (.object members)) ∧
    ∀ owner now (request : Request fl), ∀ row ∈ (runActs codec fl study acts).rows,
      (Identical codec fl owner request row →
        lease owner now (runActs codec fl study acts) = .ok () →
        append codec fl study owner now request (runActs codec fl study acts) =
          .ok (row.header, runActs codec fl study acts)) ∧
      (Conflicting codec fl owner request row →
        (∃ fault, append codec fl study owner now request (runActs codec fl study acts) =
          .error fault) ∧
        appended codec fl study owner now request (runActs codec fl study acts) =
          runActs codec fl study acts) := by
  refine ⟨(runActs_sealed acts).verified, fun selection more start => ?_, fun row member => ?_,
    fun owner now request row member => ⟨fun identical held => ?_, fun conflict => ?_⟩⟩
  · have here : (runActs codec fl study (acts ++ more 0)).rows = (runActs codec fl study acts).rows := by
      rw [start, List.append_nil]
    let views (query : ℕ) : List Row := (runActs codec fl study (acts ++ more query)).rows
    have grown (query : ℕ) : views 0 <+: views query := by
      simpa only [views, here] using runActs_prefix acts (more query)
    have each (query : ℕ) : Sealed codec fl study (views query) := runActs_sealed _
    have read := Sealed.blobChunks selection each grown
    simpa only [views, here] using read
  · obtain ⟨before, owner, now, request, origin⟩ := runActs_origin acts member
    exact ⟨before, owner, now, request, _, origin, origin.linked.decode,
      Json.same_sorted (.object request.payload.val)⟩
  · exact append_identical (runActs_sealed acts) member identical held
  · obtain ⟨fault, raised⟩ := append_conflicting now (runActs_sealed acts) member conflict
    exact ⟨⟨fault, raised⟩, by rw [appended, raised]⟩

end runs

end integrity

/-- Data kept as it is, under a digest that is its length. -/
def Codec.plain : Codec where
  sha256 data := toString data.size
  compress data := data
  decompress data limit := if data.size < limit then some ⟨data, true, .empty, .empty⟩ else none
  lossless data limit room := by simp [room]

/-- Zero is the one number written. -/
def Floats.zero : Floats where
  Carrier := Unit
  repr _ := ⟨false, ['0'], ['0'], [], .inl rfl, by simp, .inl rfl, .inl (by simp)⟩
  read _ := ()
  exact _ := rfl

-- A second owner, a repeated append and a clock that goes back leave two records stored.
example : ((runActs Codec.plain Floats.zero "study" [.acquire "a" 1,
    .claim "a" 2 ⟨[], by simp, trivial⟩ "root" 1,
    .append "b" 3 "book" "frame" ⟨[("n", .float ())], by simp, trivial, trivial⟩ 5000,
    .append "a" 3 "book" "frame" ⟨[("n", .float ())], by simp, trivial, trivial⟩ 5000,
    .append "a" 3 "book" "frame" ⟨[("n", .float ())], by simp, trivial, trivial⟩ 5000,
    .append "a" 3 "book" "later" ⟨[("n", .int 3)], by simp, trivial, trivial⟩ 4000]).rows.map
      (·.header.storedBytes)) = [550, 1071] := by
  decide +kernel

end TradeAgent.Confirmation
