import Mathlib.Data.List.Basic
import TradeAgent.ActivitySync
import TradeAgent.Library.Paging
import TradeAgent.Library.Procedure

/-! Reading the activities loses none. Whatever the broker exposes of a window while it is paged is
stored by the time the window is complete, and the complete windows leave no time between them. -/
namespace TradeAgent.Scalp

/-- How the broker lists activities by time: which ends of a window belong to it. -/
structure ActivityBroker where
  timeOf : String → Instant
  afterIncluded : Bool
  untilIncluded : Bool

namespace ActivityBroker

variable (b : ActivityBroker)

def contains (after until_ at_ : Instant) : Prop :=
  (if b.afterIncluded then after ≤ at_ else after < at_) ∧
    (if b.untilIncluded then at_ ≤ until_ else at_ < until_)

instance (after until_ at_ : Instant) : Decidable (b.contains after until_ at_) :=
  inferInstanceAs (Decidable (_ ∧ _))

/-- The activities of a window, of those exposed. -/
def listed (exposed : List String) (window : ActivityWindow) : List String :=
  exposed.filter fun id => b.contains window.after window.until_ (b.timeOf id)

/-- What is still to be paged of a window. -/
def remaining (exposed : List String) (window : ActivityWindow) : List String :=
  Paging.beyond (b.listed exposed window) window.token

/-- A page of the complete window, of whatever length: it goes on after the last page, only the last
one says that it is complete, and any other names its last row. -/
structure Serves (exposed : List String) (window : ActivityWindow) (page : Page) : Prop where
  front : (page.activities.map RawActivity.id).IsPrefix (b.remaining exposed window)
  whole : page.complete = true → page.activities.map RawActivity.id = b.remaining exposed window
  token : page.complete = false →
    page.nextPageToken = (page.activities.map RawActivity.id).getLast?

end ActivityBroker

/-- A broker that answers with the next rows, as many as were asked for, serves its complete windows. -/
theorem accountActivityPage_serves (b : ActivityBroker) {exposed : List String} {window : ActivityWindow}
    {pageSize : ℕ} {payload : List RawActivity} {page : Page} (some_ : 0 < pageSize)
    (next : payload.map RawActivity.id = (b.remaining exposed window).take pageSize)
    (read : accountActivityPage pageSize window.token payload = .ok page) : b.Serves exposed window page := by
  have size : payload.length = min pageSize (b.remaining exposed window).length := by
    rw [← List.length_map (f := RawActivity.id), next, List.length_take]
  have front : (payload.map RawActivity.id).IsPrefix (b.remaining exposed window) := next ▸ List.take_prefix _ _
  unfold accountActivityPage at read
  dsimp only at read
  split at read
  next => cases read
  next =>
    by_cases full : payload.length = pageSize
    · rw [if_pos full] at read
      have last : payload.getLast?.map RawActivity.id ≠ none := by
        intro none_
        rw [Option.map_eq_none_iff, List.getLast?_eq_none_iff] at none_
        rw [none_] at full
        exact some_.ne full
      by_cases repeated : payload.getLast?.map RawActivity.id = window.token
      · rw [if_pos ⟨last, repeated⟩] at read
        cases read
      · rw [if_neg (fun both => repeated both.2)] at read
        cases read
        refine ⟨front, fun complete => absurd (of_decide_eq_true complete) last, fun _ => ?_⟩
        exact List.getLast?_map.symm
    · rw [if_neg full, if_neg (fun repeated => repeated.1 rfl)] at read
      cases read
      have all_ : payload.map RawActivity.id = b.remaining exposed window := by
        rw [next]
        exact List.take_of_length_le (by omega)
      exact ⟨front, fun _ => all_, fun partial_ => by simp at partial_⟩

section history

/-- A window that was paged to its end, with the activities that were exposed when they were due. -/
structure PagedWindow where
  after : Instant
  until_ : Instant
  exposed : List String
  deriving DecidableEq

/-- A record of what happened, kept beside the state: what the broker exposed when it was last asked, what it
exposed of the open window, the windows paged so far, and the body last seen of each activity stored. -/
structure SyncHistory where
  exposed : List String := []
  owed : List String := []
  windows : List PagedWindow := []
  seen : Dict String RawActivity := .empty

def noteSeen (seen : Dict String RawActivity) (rows : List RawActivity) : Dict String RawActivity :=
  rows.foldl (fun seen raw => seen.set raw.id raw) seen

/-- The record of one turn, made in the state `before` it. -/
def SyncHistory.record (h : SyncHistory) (hashing : ActivityHashing) (b : ActivityBroker) (sweep : Sweep)
    (attempt : Attempt) (before : ActivityState) (turn : Turn) : SyncHistory :=
  match (before.cursor sweep).window with
  | none => h
  | some window =>
    match attempt.answer window with
    | none => h
    | some page =>
      let seen := if (keepPage hashing attempt before page).isSome then noteSeen h.seen page.activities else h.seen
      match sweep with
      | .fee => { h with seen }
      | .activity =>
        let owed := h.owed ++ b.remaining attempt.exposed window
        if turn = .complete then
          { exposed := attempt.exposed, owed := []
            windows := h.windows ++ [⟨window.after, window.until_, owed⟩], seen := seen }
        else { exposed := attempt.exposed, owed := owed, windows := h.windows, seen := seen }

/-- The record of the turns that a paging loop takes. -/
def recordPages (hashing : ActivityHashing) (b : ActivityBroker) (sweep : Sweep) :
    ℕ → List Attempt → ActivityState → SyncHistory → SyncHistory
  | 0, _, _, h => h
  | _, [], _, h => h
  | pages + 1, attempt :: rest, s, h =>
    let h := h.record hashing b sweep attempt s (syncPage hashing sweep attempt s).2
    match syncPage hashing sweep attempt s with
    | (s, .goesOn) => recordPages hashing b sweep pages rest s h
    | _ => h

/-- The state and the record of it after any calls. A process that dies leaves its call without further
attempts; the next process goes on with what is stored. -/
def runCalls (hashing : ActivityHashing) (b : ActivityBroker) (s : ActivityState) (h : SyncHistory) :
    List SyncCall → ActivityState × SyncHistory
  | [] => (s, h)
  | call :: rest =>
    runCalls hashing b (syncActivities hashing call s)
      (recordPages hashing b call.sweep call.pages call.attempts (openWindow s call.sweep call.now) h) rest

end history

section assumptions

/-- What is assumed of the calls: the clock does not run back, the broker takes back no activity that it
exposed nor their order, and it serves the complete windows. -/
structure Lawful (b : ActivityBroker) (started : Instant) (calls : List SyncCall) : Prop where
  clock : (started :: calls.map SyncCall.now).Pairwise (· ≤ ·)
  exposed : (calls.flatMap fun call => call.attempts.map Attempt.exposed).Pairwise List.Sublist
  serves : ∀ call ∈ calls, call.sweep = .activity → ∀ attempt ∈ call.attempts, ∀ window page,
    attempt.answer window = some page → b.Serves attempt.exposed window page

/-- An activity that some page brings. -/
def Sent (calls : List SyncCall) (raw : RawActivity) : Prop :=
  ∃ call ∈ calls, ∃ attempt ∈ call.attempts, ∃ window page, attempt.answer window = some page ∧
    raw ∈ page.activities

/-- The digests tell apart the activities that are sent. -/
structure ActivityHashing.Separates (hashing : ActivityHashing) (sent : RawActivity → Prop) : Prop where
  key : ∀ raw other, sent raw → sent other → hashing.key raw.id = hashing.key other.id → raw.id = other.id
  body : ∀ raw other, sent raw → sent other → hashing.body raw = hashing.body other → raw = other

end assumptions

section storing

variable {hashing : ActivityHashing} {sent : RawActivity → Prop}
variable {table table' : Dict String StoredActivity} {seen : Dict String RawActivity}

/-- The table holds, for each activity seen, one row with the body last seen of it, and no others. -/
structure Holds (hashing : ActivityHashing) (sent : RawActivity → Prop) (table : Dict String StoredActivity)
    (seen : Dict String RawActivity) : Prop where
  rows : ∀ key row, table.get? key = some row → key = hashing.key row.activityId ∧
    row.payload.id = row.activityId ∧ row.payloadHash = hashing.body row.payload ∧ sent row.payload ∧
    seen.get? row.activityId = some row.payload
  seen : ∀ id raw, seen.get? id = some raw → raw.id = id ∧ sent raw ∧
    ∃ row, table.get? (hashing.key id) = some row ∧ row.activityId = id

theorem activityRow_stores {links : String → Option OrderLink} {clock : Instant} {current : Option StoredActivity}
    {raw : RawActivity} {row : StoredActivity} (read : activityRow hashing links clock current raw = .ok row) :
    row.activityId = raw.id ∧ row.payload = raw ∧ row.payloadHash = hashing.body raw := by
  unfold activityRow at read
  obtain ⟨⟨at_, precision⟩, -, read⟩ := bind_ok_iff.mp read
  dsimp only at read
  split at read
  next =>
    obtain ⟨_, thrown, -⟩ := bind_ok_iff.mp read
    cases thrown
  next =>
    obtain ⟨qty, -, read⟩ := bind_ok_iff.mp read
    obtain ⟨cash, -, read⟩ := bind_ok_iff.mp read
    cases read
    exact ⟨rfl, rfl, rfl⟩

/-- Writing the row of an activity, whatever else it says. -/
theorem Holds.write (holds : Holds hashing sent table seen) (separates : hashing.Separates sent)
    {raw : RawActivity} {row : StoredActivity} (is_sent : sent raw) (id : row.activityId = raw.id)
    (payload : row.payload = raw) (hash : row.payloadHash = hashing.body raw) :
    Holds hashing sent (table.set (hashing.key raw.id) row) (seen.set raw.id raw) := by
  constructor
  · intro key other found
    rw [Dict.get?_set] at found
    split at found
    next same =>
      obtain rfl := Option.some.inj found
      refine ⟨same ▸ id ▸ rfl, payload ▸ id.symm, payload ▸ hash, payload ▸ is_sent, ?_⟩
      rw [id, payload, Dict.get?_set, if_pos rfl]
    next apart =>
      obtain ⟨named, same, hashed, there, stored⟩ := holds.rows key other found
      refine ⟨named, same, hashed, there, ?_⟩
      rw [Dict.get?_set, if_neg]
      · exact stored
      · intro equal
        exact apart (equal ▸ named.symm)
  · intro other body found
    rw [Dict.get?_set] at found
    split at found
    next same =>
      obtain rfl := Option.some.inj found
      exact ⟨same, is_sent, row, by rw [← same, Dict.get?_set, if_pos rfl], id.trans same⟩
    next apart =>
      obtain ⟨same, there, stored, present, named⟩ := holds.seen other body found
      refine ⟨same, there, stored, ?_, named⟩
      rw [Dict.get?_set, if_neg]
      · exact present
      · intro equal
        exact apart ((separates.key raw body is_sent there (by rw [same]; exact equal)).trans same)

/-- An activity stored already, with the same body. -/
theorem Holds.again (holds : Holds hashing sent table seen) {raw : RawActivity} {row : StoredActivity}
    (present : table.get? (hashing.key raw.id) = some row) (id : row.activityId = raw.id)
    (payload : row.payload = raw) : Holds hashing sent table (seen.set raw.id raw) := by
  have same : seen.get? raw.id = some raw := by
    have stored := (holds.rows _ row present).2.2.2.2
    rwa [id, payload] at stored
  have unchanged (key : String) : (seen.set raw.id raw).get? key = seen.get? key := by
    rw [Dict.get?_set]
    split
    next equal => rw [← equal, same]
    next => rfl
  exact ⟨fun key other found => by rw [unchanged]; exact holds.rows key other found,
    fun other body found => holds.seen other body (unchanged other ▸ found)⟩

theorem storeActivity_holds (holds : Holds hashing sent table seen) (separates : hashing.Separates sent)
    {links : String → Option OrderLink} {clock : Instant} {raw : RawActivity} (is_sent : sent raw)
    (stored : storeActivity hashing links clock table raw = .ok table') :
    Holds hashing sent table' (seen.set raw.id raw) := by
  unfold storeActivity at stored
  dsimp only at stored
  obtain ⟨row, read, stored⟩ := bind_ok_iff.mp stored
  obtain ⟨id, payload, hash⟩ := activityRow_stores read
  split at stored
  next =>
    cases stored
    exact holds.write separates is_sent id payload hash
  next current present =>
    split at stored
    next =>
      cases stored
      exact holds.write separates is_sent id payload hash
    next kept =>
      cases stored
      obtain ⟨named, same, hashed, there, -⟩ := holds.rows _ current present
      have here : current.activityId = raw.id := by
        rw [← same]
        exact (separates.key raw current.payload is_sent there (by rw [same]; exact named)).symm
      refine holds.again present here (separates.body _ _ there is_sent ?_)
      rw [← hashed]
      by_contra other
      exact kept (.inl other)

theorem storePage_holds (holds : Holds hashing sent table seen) (separates : hashing.Separates sent)
    {links : String → Option OrderLink} {clock : Instant} {rows : List RawActivity}
    (all_sent : ∀ raw ∈ rows, sent raw)
    (stored : storePage hashing links clock table rows = .ok table') :
    Holds hashing sent table' (noteSeen seen rows) := by
  unfold storePage at stored
  unfold noteSeen
  induction rows generalizing table seen with
  | nil =>
    cases stored
    exact holds
  | cons raw rest ih =>
    rw [List.forall_mem_cons] at all_sent
    rw [List.foldlM_cons] at stored
    obtain ⟨middle, first, others⟩ := bind_ok_iff.mp stored
    exact ih (storeActivity_holds holds separates all_sent.1 first) all_sent.2 others

/-- Inferring attributions touches no body. -/
theorem infer_holds (holds : Holds hashing sent table seen) (inferred : String × Attribution) :
    Holds hashing sent (infer table inferred) seen := by
  have rowsOf (key : String) (row : StoredActivity) (found : (infer table inferred).get? key = some row) :
      ∃ old, table.get? key = some old ∧ old.activityId = row.activityId ∧ old.payload = row.payload ∧
        old.payloadHash = row.payloadHash := by
    rw [infer, Dict.get?_modify] at found
    split at found
    next same =>
      subst same
      obtain ⟨old, present, rfl⟩ := Option.map_eq_some_iff.mp found
      refine ⟨old, present, ?_⟩
      split <;> exact ⟨rfl, rfl, rfl⟩
    next => exact ⟨row, found, rfl, rfl, rfl⟩
  have rowOf (key : String) (old : StoredActivity) (present : table.get? key = some old) :
      ∃ row, (infer table inferred).get? key = some row ∧ row.activityId = old.activityId := by
    rw [infer, Dict.get?_modify]
    split
    next same =>
      subst same
      rw [present]
      refine ⟨_, rfl, ?_⟩
      dsimp only
      split <;> rfl
    next => exact ⟨old, present, rfl⟩
  constructor
  · intro key row found
    obtain ⟨old, present, id, payload, hash⟩ := rowsOf key row found
    rw [← id, ← payload, ← hash]
    exact holds.rows key old present
  · intro id raw found
    obtain ⟨same, there, old, present, named⟩ := holds.seen id raw found
    obtain ⟨row, here, same'⟩ := rowOf _ old present
    exact ⟨same, there, row, here, same'.trans named⟩

theorem noteSeen_keeps (rows : List RawActivity) {seen : Dict String RawActivity} {id : String}
    (stored : (seen.get? id).isSome) : ((noteSeen seen rows).get? id).isSome := by
  unfold noteSeen
  induction rows generalizing seen with
  | nil => exact stored
  | cons raw rest ih =>
    refine ih ?_
    rw [Dict.get?_set]
    split
    next => rfl
    next => exact stored

theorem noteSeen_notes {rows : List RawActivity} {id : String} (seen : Dict String RawActivity)
    (member : id ∈ rows.map RawActivity.id) : ((noteSeen seen rows).get? id).isSome := by
  induction rows generalizing seen with
  | nil => cases member
  | cons raw rest ih =>
    rcases List.mem_cons.mp member with rfl | later
    · refine noteSeen_keeps rest ?_
      rw [Dict.get?_set, if_pos rfl]
      rfl
    · exact ih _ later

theorem keepPage_holds {attempt : Attempt} {s : ActivityState} {page : Page} (separates : hashing.Separates sent)
    (holds : Holds hashing sent s.table seen) (all_sent : ∀ raw ∈ page.activities, sent raw)
    (kept : keepPage hashing attempt s page = some table) :
    Holds hashing sent table (noteSeen seen page.activities) := by
  unfold keepPage at kept
  split at kept
  next stored =>
    split at kept
    next =>
      obtain rfl := Option.some.inj kept
      exact storePage_holds holds separates all_sent stored
    next => cases kept
  next => cases kept

end storing

section coverage

variable {hashing : ActivityHashing} {b : ActivityBroker} {sent : RawActivity → Prop} {clock watermark : Instant}
variable {s : ActivityState} {h : SyncHistory}

namespace ActivityBroker

theorem remaining_grows {exposed later : List String} (grows : exposed.Sublist later) {window : ActivityWindow}
    {id : String} (member : id ∈ b.remaining exposed window) : id ∈ b.remaining later window :=
  Paging.beyond_grows (grows.filter _) member

/-- A time beyond a watermark is in the next window, which looks back behind it. -/
theorem contains_next {start after until_ watermark at_ : Instant} (behind : after < watermark)
    (within : b.contains start until_ at_) (past : ¬b.contains start watermark at_) :
    b.contains after until_ at_ := by
  unfold contains at within past ⊢
  have late : ¬(if b.untilIncluded then at_ ≤ watermark else at_ < watermark) := fun early =>
    past ⟨within.1, early⟩
  have beyond : watermark ≤ at_ := by
    split at late
    next => exact (not_le.mp late).le
    next => exact not_lt.mp late
  refine ⟨?_, within.2⟩
  split
  next => exact (behind.trans_le beyond).le
  next => exact behind.trans_le beyond

end ActivityBroker

/-- The complete windows reach from the start of the coverage to the watermark, and what was exposed of
them is stored. Of the open window, what was exposed is stored or still to be paged. -/
structure Covered (hashing : ActivityHashing) (b : ActivityBroker) (sent : RawActivity → Prop) (clock : Instant)
    (watermark : Instant) (s : ActivityState) (h : SyncHistory) : Prop where
  holds : Holds hashing sent s.table h.seen
  reached : s.activity.watermark = some watermark
  past : watermark ≤ clock
  gapless : ∀ start ∈ s.coverageStartedAt, ∀ at_, b.contains start watermark at_ →
    ∃ w ∈ h.windows, b.contains w.after w.until_ at_
  paged : ∀ w ∈ h.windows, ∀ id ∈ w.exposed, (h.seen.get? id).isSome
  window : ∀ w ∈ s.activity.window, w.after = watermark - Sweep.activity.overlap ∧ watermark ≤ w.until_ ∧
    w.until_ ≤ clock ∧ ∀ id ∈ h.owed, (h.seen.get? id).isSome ∨ id ∈ b.remaining h.exposed w
  closed : s.activity.window = none → h.owed = []

theorem Covered.openWindow (covered : Covered hashing b sent clock watermark s h) {now : Instant}
    (forward : clock ≤ now) (sweep : Sweep) :
    Covered hashing b sent now watermark (openWindow s sweep now) h := by
  obtain ⟨holds, reached, past, gapless, paged, window, closed⟩ := covered
  have kept : Covered hashing b sent now watermark s h := ⟨holds, reached, past.trans forward, gapless, paged,
    fun w here => let of := window w here; ⟨of.1, of.2.1, of.2.2.1.trans forward, of.2.2.2⟩, closed⟩
  unfold Scalp.openWindow
  dsimp only
  split
  next none_ starts =>
    cases sweep with
    | fee => exact ⟨holds, reached, past.trans forward, gapless, paged, kept.window, closed⟩
    | activity =>
      have same : s.activity.watermark.or s.activity.watermark = some watermark := by
        rw [reached]
        rfl
      obtain rfl := Option.some.inj (same.symm.trans starts)
      refine ⟨holds, reached, past.trans forward, gapless, paged, ?_, fun never => nomatch never⟩
      intro w here
      obtain rfl := Option.some.inj (show some _ = some w from here)
      refine ⟨rfl, past.trans forward, le_rfl, fun id member => ?_⟩
      rw [closed none_] at member
      cases member
  next => exact kept

/-- What an answered request adds to what is owed of the open window. -/
theorem Covered.owed (covered : Covered hashing b sent clock watermark s h) {window : ActivityWindow}
    (open_ : s.activity.window = some window) {exposed : List String} (grows : h.exposed.Sublist exposed) :
    ∀ id ∈ h.owed ++ b.remaining exposed window,
      (h.seen.get? id).isSome ∨ id ∈ b.remaining exposed window := by
  intro id member
  rcases List.mem_append.mp member with earlier | now_
  · exact ((covered.window window open_).2.2.2 id earlier).imp_right (b.remaining_grows grows)
  · exact .inr now_

/-- The ways in which a turn of the paging loop goes. -/
inductive Turned (hashing : ActivityHashing) (sweep : Sweep) (attempt : Attempt) (s : ActivityState) :
    ActivityState × Turn → Prop where
  | unanswered (none_ : ∀ window ∈ (s.cursor sweep).window, attempt.answer window = none) :
      Turned hashing sweep attempt s (s, .ended)
  | dropped (window : ActivityWindow) (page : Page) (open_ : (s.cursor sweep).window = some window)
      (answered : attempt.answer window = some page) (lost : keepPage hashing attempt s page = none) :
      Turned hashing sweep attempt s (s, .ended)
  | kept (window : ActivityWindow) (page : Page) (table : Dict String StoredActivity)
      (open_ : (s.cursor sweep).window = some window) (answered : attempt.answer window = some page)
      (stored : keepPage hashing attempt s page = some table) :
      Turned hashing sweep attempt s ({ s with table }, .ended)
  | complete (window : ActivityWindow) (page : Page) (table : Dict String StoredActivity)
      (open_ : (s.cursor sweep).window = some window) (answered : attempt.answer window = some page)
      (stored : keepPage hashing attempt s page = some table) (last : page.complete = true) :
      Turned hashing sweep attempt s (closeWindow { s with table } sweep window, .complete)
  | goesOn (window : ActivityWindow) (page : Page) (table : Dict String StoredActivity) (token : String)
      (open_ : (s.cursor sweep).window = some window) (answered : attempt.answer window = some page)
      (stored : keepPage hashing attempt s page = some table) (more : page.complete = false)
      (next : page.nextPageToken = some token) :
      Turned hashing sweep attempt s (saveToken { s with table } sweep window (some token), .goesOn)

theorem syncPage_turned (hashing : ActivityHashing) (sweep : Sweep) (attempt : Attempt) (s : ActivityState) :
    Turned hashing sweep attempt s (syncPage hashing sweep attempt s) := by
  unfold syncPage
  split
  next none_ => exact .unanswered fun window here => by rw [none_] at here; cases here
  next window open_ =>
    split
    next none_ =>
      refine .unanswered fun other here => ?_
      obtain rfl := Option.some.inj (open_.symm.trans here)
      exact none_
    next page answered =>
      split
      next lost => exact .dropped window page open_ answered lost
      next table stored =>
        dsimp only
        split
        next => exact .kept window page table open_ answered stored
        next moves =>
          split
          next => exact .kept window page table open_ answered stored
          next =>
            split
            next last => exact .complete window page table open_ answered stored last
            next more =>
              cases token : page.nextPageToken with
              | none => exact absurd ⟨more, .inl token⟩ moves
              | some last =>
                exact .goesOn window page table last open_ answered stored (Bool.not_eq_true _ ▸ more) token

/-- The record of a turn that answered nothing, and of one that did. -/
theorem record_unanswered {sweep : Sweep} {attempt : Attempt} {turn : Turn}
    (none_ : ∀ window ∈ (s.cursor sweep).window, attempt.answer window = none) :
    h.record hashing b sweep attempt s turn = h := by
  unfold SyncHistory.record
  split
  next => rfl
  next window open_ => rw [none_ window open_]

theorem record_answered {attempt : Attempt} {turn : Turn} {window : ActivityWindow} {page : Page}
    (open_ : s.activity.window = some window) (answered : attempt.answer window = some page) :
    h.record hashing b .activity attempt s turn =
      let seen := if (keepPage hashing attempt s page).isSome then noteSeen h.seen page.activities else h.seen
      let owed := h.owed ++ b.remaining attempt.exposed window
      if turn = .complete then
        { exposed := attempt.exposed, owed := []
          windows := h.windows ++ [⟨window.after, window.until_, owed⟩], seen := seen }
      else { exposed := attempt.exposed, owed := owed, windows := h.windows, seen := seen } := by
  unfold SyncHistory.record
  rw [show (s.cursor .activity).window = some window from open_]
  dsimp only
  rw [answered]

/-- The open window is paged on: the table and the bodies seen move on, and the token perhaps. -/
theorem Covered.paging (covered : Covered hashing b sent clock watermark s h) {window : ActivityWindow}
    (open_ : s.activity.window = some window) {s' : ActivityState} {seen : Dict String RawActivity}
    {exposed owed : List String} {token : Option String}
    (cursor : s'.activity = { s.activity with window := some { window with token } })
    (coverage : s'.coverageStartedAt = s.coverageStartedAt) (holds : Holds hashing sent s'.table seen)
    (keeps : ∀ id, (h.seen.get? id).isSome → (seen.get? id).isSome)
    (due : ∀ id ∈ owed, (seen.get? id).isSome ∨ id ∈ b.remaining exposed { window with token }) :
    Covered hashing b sent clock watermark s' ⟨exposed, owed, h.windows, seen⟩ where
  holds := holds
  reached := by
    rw [cursor]
    exact covered.reached
  past := covered.past
  gapless start started := covered.gapless start (coverage ▸ started)
  paged w done id member := keeps id (covered.paged w done id member)
  window w here := by
    rw [cursor] at here
    obtain rfl := Option.some.inj (show some _ = some w from here)
    obtain ⟨after, later, past, -⟩ := covered.window window open_
    exact ⟨after, later, past, due⟩
  closed none_ := by
    rw [cursor] at none_
    cases none_

/-- The window is complete: what was owed of it is stored, and its end is the new watermark. -/
theorem Covered.complete (covered : Covered hashing b sent clock watermark s h) {window : ActivityWindow}
    (open_ : s.activity.window = some window) {table : Dict String StoredActivity}
    {seen : Dict String RawActivity} {exposed owed : List String} (holds : Holds hashing sent table seen)
    (keeps : ∀ id, (h.seen.get? id).isSome → (seen.get? id).isSome)
    (paid : ∀ id ∈ owed, (seen.get? id).isSome) :
    Covered hashing b sent clock window.until_ (closeWindow { s with table } .activity window)
      ⟨exposed, [], h.windows ++ [⟨window.after, window.until_, owed⟩], seen⟩ := by
  obtain ⟨after, later, past, -⟩ := covered.window window open_
  refine {
    holds := holds
    reached := rfl
    past := past
    gapless := ?_
    paged := ?_
    window := fun w never => nomatch never
    closed := fun _ => rfl }
  · intro start started at_ within
    obtain rfl := Option.some.inj (show some _ = some start from started)
    cases coverage : s.coverageStartedAt with
    | none =>
      dsimp only at within
      rw [coverage] at within
      exact ⟨_, List.mem_append_right _ List.mem_cons_self, within⟩
    | some first =>
      dsimp only at within
      rw [coverage] at within
      by_cases early : b.contains first watermark at_
      · obtain ⟨w, done, inside⟩ := covered.gapless first coverage at_ early
        exact ⟨w, List.mem_append_left _ done, inside⟩
      · refine ⟨_, List.mem_append_right _ List.mem_cons_self, b.contains_next ?_ within early⟩
        rw [after]
        exact sub_lt_self _ (by decide)
  · intro w done id member
    rcases List.mem_append.mp done with earlier | here
    · exact keeps id (covered.paged w earlier id member)
    · obtain rfl := List.mem_singleton.mp here
      exact paid id member

theorem Covered.syncPage (covered : Covered hashing b sent clock watermark s h) (separates : hashing.Separates sent)
    {attempt : Attempt} (grows : h.exposed.Sublist attempt.exposed)
    (all_sent : ∀ window page, attempt.answer window = some page → ∀ raw ∈ page.activities, sent raw)
    (serves : ∀ window page, attempt.answer window = some page → b.Serves attempt.exposed window page) :
    ∃ watermark', watermark ≤ watermark' ∧
      Covered hashing b sent clock watermark' (Scalp.syncPage hashing .activity attempt s).1
        (h.record hashing b .activity attempt s (Scalp.syncPage hashing .activity attempt s).2) := by
  have turned := syncPage_turned hashing .activity attempt s
  revert turned
  generalize Scalp.syncPage hashing .activity attempt s = result
  intro turned
  cases turned with
  | unanswered none_ =>
    rw [record_unanswered none_]
    exact ⟨watermark, le_rfl, covered⟩
  | dropped window page open_ answered lost =>
    rw [record_answered open_ answered, lost]
    exact ⟨watermark, le_rfl, covered.paging open_ (congrArg (fun w => { s.activity with window := w }) open_)
      rfl covered.holds (fun _ => id) (covered.owed open_ grows)⟩
  | kept window page table open_ answered stored =>
    rw [record_answered open_ answered, stored]
    have holds := keepPage_holds separates covered.holds (all_sent window page answered) stored
    exact ⟨watermark, le_rfl, covered.paging open_ (congrArg (fun w => { s.activity with window := w }) open_)
      rfl holds (fun _ => noteSeen_keeps _) fun id member =>
        (covered.owed open_ grows id member).imp_left (noteSeen_keeps _)⟩
  | complete window page table open_ answered stored last =>
    rw [record_answered open_ answered, stored]
    have holds := keepPage_holds separates covered.holds (all_sent window page answered) stored
    refine ⟨window.until_, (covered.window window open_).2.1,
      covered.complete open_ holds (fun _ => noteSeen_keeps _) fun id member => ?_⟩
    rcases covered.owed open_ grows id member with seen | due
    · exact noteSeen_keeps _ seen
    · rw [← (serves window page answered).whole last] at due
      exact noteSeen_notes _ due
  | goesOn window page table token open_ answered stored more next =>
    rw [record_answered open_ answered, stored]
    have holds := keepPage_holds separates covered.holds (all_sent window page answered) stored
    refine ⟨watermark, le_rfl, covered.paging open_ rfl rfl holds (fun _ => noteSeen_keeps _)
      fun id member => ?_⟩
    have served := serves window page answered
    have ends := served.token more
    rw [next] at ends
    rcases covered.owed open_ grows id member with seen | due
    · exact .inl (noteSeen_keeps _ seen)
    · rcases Paging.page_or_beyond served.front ends.symm due with on | beyond
      · exact .inl (noteSeen_notes _ on)
      · exact .inr beyond

/-- The fee sweep stores rows, and leaves the cursor of the activities alone. -/
theorem Covered.stores (covered : Covered hashing b sent clock watermark s h) {s' : ActivityState}
    {seen : Dict String RawActivity} (cursor : s'.activity = s.activity)
    (coverage : s'.coverageStartedAt = s.coverageStartedAt) (holds : Holds hashing sent s'.table seen)
    (keeps : ∀ id, (h.seen.get? id).isSome → (seen.get? id).isSome) :
    Covered hashing b sent clock watermark s' { h with seen } where
  holds := holds
  reached := by
    rw [cursor]
    exact covered.reached
  past := covered.past
  gapless start started := covered.gapless start (coverage ▸ started)
  paged w done id member := keeps id (covered.paged w done id member)
  window w here := by
    obtain ⟨after, later, past, due⟩ := covered.window w (cursor ▸ here)
    exact ⟨after, later, past, fun id member => (due id member).imp_left (keeps id)⟩
  closed none_ := covered.closed (cursor ▸ none_)

theorem record_fee {attempt : Attempt} {turn : Turn} {window : ActivityWindow} {page : Page}
    (open_ : s.fee.window = some window) (answered : attempt.answer window = some page) :
    h.record hashing b .fee attempt s turn =
      { h with seen :=
          if (keepPage hashing attempt s page).isSome then noteSeen h.seen page.activities else h.seen } := by
  unfold SyncHistory.record
  rw [show (s.cursor .fee).window = some window from open_]
  dsimp only
  rw [answered]

theorem Covered.feePage (covered : Covered hashing b sent clock watermark s h) (separates : hashing.Separates sent)
    {attempt : Attempt}
    (all_sent : ∀ window page, attempt.answer window = some page → ∀ raw ∈ page.activities, sent raw) :
    Covered hashing b sent clock watermark (Scalp.syncPage hashing .fee attempt s).1
      (h.record hashing b .fee attempt s (Scalp.syncPage hashing .fee attempt s).2) := by
  have turned := syncPage_turned hashing .fee attempt s
  revert turned
  generalize Scalp.syncPage hashing .fee attempt s = result
  intro turned
  cases turned with
  | unanswered none_ =>
    rw [record_unanswered none_]
    exact covered
  | dropped window page open_ answered lost =>
    rw [record_fee open_ answered, lost]
    exact covered
  | kept window page table open_ answered stored | complete window page table open_ answered stored =>
    rw [record_fee open_ answered, stored]
    exact covered.stores rfl rfl (keepPage_holds separates covered.holds (all_sent window page answered) stored)
      fun _ => noteSeen_keeps _
  | goesOn window page table token open_ answered stored =>
    rw [record_fee open_ answered, stored]
    exact covered.stores rfl rfl (keepPage_holds separates covered.holds (all_sent window page answered) stored)
      fun _ => noteSeen_keeps _

variable (hashing b) in
theorem record_exposed (s : ActivityState) (h : SyncHistory) (sweep : Sweep) (attempt : Attempt) (turn : Turn) :
    (h.record hashing b sweep attempt s turn).exposed ∈ [h.exposed, attempt.exposed] := by
  unfold SyncHistory.record
  split
  next => exact List.mem_cons_self
  next =>
    split
    next => exact List.mem_cons_self
    next =>
      cases sweep with
      | fee => exact List.mem_cons_self
      | activity =>
        dsimp only
        split <;> exact List.mem_cons_of_mem _ List.mem_cons_self

variable (hashing b) in
theorem recordPages_exposed (sweep : Sweep) (pages : ℕ) (attempts : List Attempt) (s : ActivityState)
    (h : SyncHistory) :
    (recordPages hashing b sweep pages attempts s h).exposed ∈ h.exposed :: attempts.map Attempt.exposed := by
  induction pages generalizing attempts s h with
  | zero => exact List.mem_cons_self
  | succ pages ih =>
    cases attempts with
    | nil => exact List.mem_cons_self
    | cons attempt rest =>
      have first := record_exposed hashing b s h sweep attempt
        (syncPage hashing sweep attempt s).2
      have start : (h.record hashing b sweep attempt s (syncPage hashing sweep attempt s).2).exposed ∈
          h.exposed :: (attempt :: rest).map Attempt.exposed :=
        (List.cons_subset_cons _ (List.cons_subset_cons _ (List.nil_subset _))) first
      unfold recordPages
      dsimp only
      split
      next =>
        rcases List.mem_cons.mp (ih rest _ _) with here | later
        · rw [here]
          exact start
        · exact List.mem_cons_of_mem _ (List.mem_cons_of_mem _ later)
      next => exact start

theorem Covered.turn (covered : Covered hashing b sent clock watermark s h) (separates : hashing.Separates sent)
    {sweep : Sweep} {attempt : Attempt} (grows : h.exposed.Sublist attempt.exposed)
    (all_sent : ∀ window page, attempt.answer window = some page → ∀ raw ∈ page.activities, sent raw)
    (serves : sweep = .activity → ∀ window page, attempt.answer window = some page →
      b.Serves attempt.exposed window page) :
    ∃ watermark', watermark ≤ watermark' ∧
      Covered hashing b sent clock watermark' (Scalp.syncPage hashing sweep attempt s).1
        (h.record hashing b sweep attempt s (Scalp.syncPage hashing sweep attempt s).2) := by
  cases sweep with
  | activity => exact covered.syncPage separates grows all_sent (serves rfl)
  | fee => exact ⟨watermark, le_rfl, covered.feePage separates all_sent⟩

theorem Covered.syncPages (covered : Covered hashing b sent clock watermark s h) (separates : hashing.Separates sent)
    {sweep : Sweep} (pages : ℕ) {attempts : List Attempt}
    (grows : (h.exposed :: attempts.map Attempt.exposed).Pairwise List.Sublist)
    (all_sent : ∀ attempt ∈ attempts, ∀ window page, attempt.answer window = some page →
      ∀ raw ∈ page.activities, sent raw)
    (serves : sweep = .activity → ∀ attempt ∈ attempts, ∀ window page, attempt.answer window = some page →
      b.Serves attempt.exposed window page) :
    ∃ watermark', watermark ≤ watermark' ∧
      Covered hashing b sent clock watermark' (Scalp.syncPages hashing sweep pages attempts s).1
        (recordPages hashing b sweep pages attempts s h) := by
  induction pages generalizing attempts s h watermark with
  | zero => exact ⟨watermark, le_rfl, covered⟩
  | succ pages ih =>
    cases attempts with
    | nil => exact ⟨watermark, le_rfl, covered⟩
    | cons attempt rest =>
      rw [List.forall_mem_cons] at all_sent
      obtain ⟨before, ordered⟩ := List.pairwise_cons.mp grows
      obtain ⟨first, others⟩ := List.pairwise_cons.mp ordered
      obtain ⟨next, later, turned⟩ := covered.turn separates (before _ List.mem_cons_self) all_sent.1
        fun activity => serves activity attempt List.mem_cons_self
      have exposed := record_exposed hashing b s h sweep attempt
        (Scalp.syncPage hashing sweep attempt s).2
      unfold Scalp.syncPages recordPages
      revert turned exposed
      generalize Scalp.syncPage hashing sweep attempt s = result
      intro turned exposed
      obtain ⟨s', turn⟩ := result
      cases turn with
      | goesOn =>
        have ahead : ∀ list ∈ rest.map Attempt.exposed,
            (h.record hashing b sweep attempt s .goesOn).exposed.Sublist list := by
          intro list member
          rcases List.mem_cons.mp exposed with same | same
          · rw [same]
            exact before list (List.mem_cons_of_mem _ member)
          · rw [List.mem_singleton.mp same]
            exact first list member
        obtain ⟨last, still, ended⟩ := ih turned (List.pairwise_cons.mpr ⟨ahead, others⟩) all_sent.2
          fun activity other member => serves activity other (List.mem_cons_of_mem _ member)
        exact ⟨last, later.trans still, ended⟩
      | complete => exact ⟨next, later, turned⟩
      | ended => exact ⟨next, later, turned⟩

theorem Covered.syncActivities (covered : Covered hashing b sent clock watermark s h)
    (separates : hashing.Separates sent) {call : SyncCall} (forward : clock ≤ call.now)
    (grows : (h.exposed :: call.attempts.map Attempt.exposed).Pairwise List.Sublist)
    (all_sent : ∀ attempt ∈ call.attempts, ∀ window page, attempt.answer window = some page →
      ∀ raw ∈ page.activities, sent raw)
    (serves : call.sweep = .activity → ∀ attempt ∈ call.attempts, ∀ window page,
      attempt.answer window = some page → b.Serves attempt.exposed window page) :
    ∃ watermark', watermark ≤ watermark' ∧
      Covered hashing b sent call.now watermark' (Scalp.syncActivities hashing call s)
        (recordPages hashing b call.sweep call.pages call.attempts (Scalp.openWindow s call.sweep call.now) h) := by
  obtain ⟨next, later, paged⟩ := (covered.openWindow forward call.sweep).syncPages separates call.pages grows
    all_sent serves
  refine ⟨next, later, ?_⟩
  unfold Scalp.syncActivities
  dsimp only
  split
  next =>
    refine paged.stores rfl rfl ?_ fun _ => id
    exact List.foldlRecOn (motive := fun table => Holds hashing sent table _) call.inferred infer paged.holds
      fun _ holds inferred _ => infer_holds holds inferred
  next => exact paged

/-- Any calls keep what was covered, and those that follow them go on from there. -/
theorem Covered.runCalls (covered : Covered hashing b sent clock watermark s h)
    (separates : hashing.Separates sent) (calls rest : List SyncCall)
    (clocks : (clock :: (calls ++ rest).map SyncCall.now).Pairwise (· ≤ ·))
    (grows : (h.exposed :: (calls ++ rest).flatMap fun call =>
      call.attempts.map Attempt.exposed).Pairwise List.Sublist)
    (all_sent : ∀ raw, Sent calls raw → sent raw)
    (serves : ∀ call ∈ calls, call.sweep = .activity → ∀ attempt ∈ call.attempts, ∀ window page,
      attempt.answer window = some page → b.Serves attempt.exposed window page) :
    ∃ clock' watermark', watermark ≤ watermark' ∧
      Covered hashing b sent clock' watermark' (Scalp.runCalls hashing b s h calls).1
        (Scalp.runCalls hashing b s h calls).2 ∧
      (clock' :: rest.map SyncCall.now).Pairwise (· ≤ ·) ∧
      ((Scalp.runCalls hashing b s h calls).2.exposed :: rest.flatMap fun call =>
        call.attempts.map Attempt.exposed).Pairwise List.Sublist := by
  induction calls generalizing clock watermark s h with
  | nil => exact ⟨clock, watermark, le_rfl, covered, clocks, grows⟩
  | cons call later_ ih =>
    obtain ⟨before, ordered⟩ := List.pairwise_cons.mp clocks
    rw [List.cons_append, List.flatMap_cons, ← List.cons_append] at grows
    obtain ⟨here, others, between⟩ := List.pairwise_append.mp grows
    obtain ⟨next, later, synced⟩ := covered.syncActivities separates (before _ List.mem_cons_self) here
      (fun attempt member window page answered raw on =>
        all_sent raw ⟨call, List.mem_cons_self, attempt, member, window, page, answered, on⟩)
      (serves call List.mem_cons_self)
    have ahead := between _ (recordPages_exposed hashing b call.sweep call.pages call.attempts
      (Scalp.openWindow s call.sweep call.now) h)
    obtain ⟨clock', last, still, ended⟩ := ih synced ordered (List.pairwise_cons.mpr ⟨ahead, others⟩)
      (fun raw ⟨other, member, sends⟩ => all_sent raw ⟨other, List.mem_cons_of_mem _ member, sends⟩)
      (fun other member => serves other (List.mem_cons_of_mem _ member))
    exact ⟨clock', last, later.trans still, ended⟩

/-- The baseline covers nothing yet. -/
theorem baseline_covered {after : Instant} (behind : after ≤ clock) :
    Covered hashing b sent clock after (baseline after) {} where
  holds := ⟨(fun _ _ found => nomatch found), (fun _ _ found => nomatch found)⟩
  reached := rfl
  past := behind
  gapless _ started := nomatch started
  paged _ done := nomatch done
  window _ open_ := nomatch open_
  closed _ := rfl

theorem runCalls_append (first rest : List SyncCall) (s : ActivityState) (h : SyncHistory) :
    runCalls hashing b s h (first ++ rest) =
      runCalls hashing b (runCalls hashing b s h first).1 (runCalls hashing b s h first).2 rest := by
  induction first generalizing s h with
  | nil => rfl
  | cons call first ih => exact ih _ _

end coverage

section guarantees

/-- One row of the table, under its own key, is the activity's, and it has this body. -/
def StoredOnce (hashing : ActivityHashing) (table : Dict String StoredActivity) (id : String) (raw : RawActivity) :
    Prop :=
  (∃ row, table.get? (hashing.key id) = some row ∧ row.activityId = id ∧ row.payload = raw) ∧
    ∀ key other, table.get? key = some other → other.activityId = id → key = hashing.key id

theorem Holds.storedOnce {hashing : ActivityHashing} {sent : RawActivity → Prop}
    {table : Dict String StoredActivity} {seen : Dict String RawActivity} (holds : Holds hashing sent table seen)
    {id : String} {raw : RawActivity} (noted : seen.get? id = some raw) : StoredOnce hashing table id raw := by
  obtain ⟨-, -, row, present, named⟩ := holds.seen id raw noted
  refine ⟨⟨row, present, named, ?_⟩, fun key other found same => ?_⟩
  · have stored := (holds.rows _ row present).2.2.2.2
    rw [named, noted] at stored
    exact (Option.some.inj stored).symm
  · rw [← same]
    exact (holds.rows key other found).1

/-- The activity watermark never moves back. Every time between the start of the coverage and the watermark is
in a complete window, and each activity that was exposed while that window was paged is stored once, with
the body last seen of it. -/
theorem sync_gapless (hashing : ActivityHashing) (b : ActivityBroker) {after started : Instant}
    (calls : List SyncCall) (behind : after ≤ started) (lawful : Lawful b started calls)
    (separates : hashing.Separates (Sent calls)) :
    (∀ first rest, calls = first ++ rest → ∃ earlier later, earlier ≤ later ∧
      (runCalls hashing b (baseline after) {} first).1.activity.watermark = some earlier ∧
      (runCalls hashing b (baseline after) {} calls).1.activity.watermark = some later) ∧
    ∀ s h, runCalls hashing b (baseline after) {} calls = (s, h) →
      ∀ start watermark, s.coverageStartedAt = some start → s.activity.watermark = some watermark →
        (∀ at_, b.contains start watermark at_ → ∃ w ∈ h.windows, b.contains w.after w.until_ at_) ∧
        ∀ w ∈ h.windows, ∀ id ∈ w.exposed, ∃ raw, h.seen.get? id = some raw ∧
          StoredOnce hashing s.table id raw := by
  have grows : (([] : List String) :: calls.flatMap fun call =>
      call.attempts.map Attempt.exposed).Pairwise List.Sublist :=
    List.pairwise_cons.mpr ⟨fun list _ => List.nil_sublist list, lawful.exposed⟩
  constructor
  · rintro first rest rfl
    obtain ⟨clock, earlier, -, covered, clocks, exposed⟩ := (baseline_covered behind).runCalls separates first rest
      lawful.clock grows (fun raw ⟨call, member, sends⟩ => ⟨call, List.mem_append_left _ member, sends⟩)
      fun call member => lawful.serves call (List.mem_append_left _ member)
    obtain ⟨_, later, onwards, ended, -⟩ := covered.runCalls separates rest []
      (by rw [List.append_nil]; exact clocks) (by rw [List.append_nil]; exact exposed)
      (fun raw ⟨call, member, sends⟩ => ⟨call, List.mem_append_right _ member, sends⟩)
      fun call member => lawful.serves call (List.mem_append_right _ member)
    refine ⟨earlier, later, onwards, covered.reached, ?_⟩
    rw [runCalls_append]
    exact ended.reached
  · intro s h ran start watermark started reached
    obtain ⟨_, last, -, covered, -⟩ := (baseline_covered behind).runCalls separates calls []
      (by rw [List.append_nil]; exact lawful.clock) (by rw [List.append_nil]; exact grows) (fun _ => id)
      lawful.serves
    rw [ran] at covered
    obtain rfl := Option.some.inj (covered.reached.symm.trans reached)
    refine ⟨covered.gapless start started, fun w done id member => ?_⟩
    obtain ⟨raw, noted⟩ := Option.isSome_iff_exists.mp (covered.paged w done id member)
    exact ⟨raw, noted, covered.holds.storedOnce noted⟩

/-- A fee that is sent on the one page of a window. -/
def feeSent : RawActivity where
  id := "fee-1"
  activityType := .cfee
  transactionTime := some (.aware (30 * second))
  status := some "executed"
  currency := some "USD"
  netAmount := some (.finite (-1 / 100))

def feeBroker : ActivityBroker where
  timeOf _ := 30 * second
  afterIncluded := false
  untilIncluded := false

def feeCall : SyncCall where
  sweep := .activity
  now := minute
  pages := 5
  attempts := [{
    exposed := ["fee-1"]
    answer := fun window =>
      if window = ⟨-(2 * minute), minute, none⟩ then some ⟨[feeSent], none, true⟩ else none
    clock := minute
    links := fun _ => none
    stored := true
    saved := true }]
  inferred := []

def idHashing : ActivityHashing := ⟨id, RawActivity.id⟩

theorem feeCall_lawful : Lawful feeBroker 0 [feeCall] := by
  refine ⟨by decide, by decide, ?_⟩
  intro call member _ attempt on window page answered
  obtain rfl := List.mem_singleton.mp member
  obtain rfl := List.mem_singleton.mp on
  dsimp only at answered
  split at answered
  next same =>
    subst same
    obtain rfl := Option.some.inj answered
    exact ⟨by decide +kernel, by decide +kernel, by decide +kernel⟩
  next => cases answered

theorem feeCall_sent {raw : RawActivity} (sent : Sent [feeCall] raw) : raw = feeSent := by
  obtain ⟨call, member, attempt, on, window, page, answered, here⟩ := sent
  obtain rfl := List.mem_singleton.mp member
  obtain rfl := List.mem_singleton.mp on
  dsimp only at answered
  split at answered
  next =>
    obtain rfl := Option.some.inj answered
    exact List.mem_singleton.mp here
  next => cases answered

/-- The watermark moves to the end of the window, and the fee is stored. -/
theorem sync_gapless_fee :
    (runCalls idHashing feeBroker (baseline 0) {} [feeCall]).1.activity.watermark = some minute ∧
    StoredOnce idHashing (runCalls idHashing feeBroker (baseline 0) {} [feeCall]).1.table "fee-1" feeSent := by
  have separates : idHashing.Separates (Sent [feeCall]) :=
    ⟨fun raw other one two _ => by rw [feeCall_sent one, feeCall_sent two],
      fun raw other one two _ => by rw [feeCall_sent one, feeCall_sent two]⟩
  obtain ⟨-, covered⟩ := sync_gapless idHashing feeBroker [feeCall] (show (0 : Instant) ≤ 0 from le_rfl)
    feeCall_lawful separates
  obtain ⟨-, paged⟩ := covered _ _ rfl (-(2 * minute)) minute (by decide +kernel) (by decide +kernel)
  obtain ⟨raw, noted, stored⟩ := paged ⟨-(2 * minute), minute, ["fee-1"]⟩ (by decide +kernel) "fee-1" (by decide)
  have same : (runCalls idHashing feeBroker (baseline 0) {} [feeCall]).2.seen.get? "fee-1" = some feeSent := by
    decide +kernel
  obtain rfl := Option.some.inj (noted.symm.trans same)
  exact ⟨by decide +kernel, stored⟩

end guarantees

end TradeAgent.Scalp
