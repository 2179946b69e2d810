import TradeAgent.Notifications

/-! A notification recorded as sent stays sent exactly as long as no dispatcher records a
failure or a review for one the provider had already accepted from another. -/
namespace TradeAgent.Notification

open Interleaving

/-- What a transaction may do to a row: nothing, move one that is not sent, or send it. -/
inductive Careful (row row' : OutboxRow) : Prop where
  | kept (same : row' = row)
  | moved (unsent : row.status ≠ .sent) (still : row'.status ≠ .sent)
      (message : row'.providerMessageId = row.providerMessageId)
      (id : row'.notificationId = row.notificationId)
  | sent (status : row'.status = .sent) (message : row'.providerMessageId ≠ none)
      (id : row'.notificationId = row.notificationId)

theorem Careful.trans {a b c : OutboxRow} (one : Careful a b) (two : Careful b c) : Careful a c := by
  cases two with
  | kept same => exact same ▸ one
  | moved unsent still message id =>
    cases one with
    | kept same => exact same ▸ .moved unsent still message id
    | moved unsentA _ messageA idA =>
      exact .moved unsentA still (message.trans messageA) (id.trans idA)
    | sent status => exact absurd status unsent
  | sent status message id =>
    cases one with
    | kept same => exact same ▸ .sent status message id
    | moved _ _ _ idA => exact .sent status message (id.trans idA)
    | sent _ _ idA => exact .sent status message (id.trans idA)

theorem Careful.id {a b : OutboxRow} (careful : Careful a b) :
    b.notificationId = a.notificationId := by
  cases careful with
  | kept same => rw [same]
  | moved _ _ _ id => exact id
  | sent _ _ id => exact id

/-- A row has its provider's message id exactly when it is sent. -/
def OutboxRow.Honest (row : OutboxRow) : Prop := row.providerMessageId ≠ none ↔ row.status = .sent

theorem Careful.honest {a b : OutboxRow} (honest : a.Honest) (careful : Careful a b) : b.Honest := by
  cases careful with
  | kept same => exact same ▸ honest
  | moved unsent still message =>
    exact ⟨fun accepted => absurd (honest.mp (message ▸ accepted)) unsent, fun sent => absurd sent still⟩
  | sent status message => exact ⟨fun _ => status, fun _ => message⟩

structure Advances (box box' : Outbox) : Prop where
  old : ∀ id row, box.get? id = some row → ∃ row', box'.get? id = some row' ∧ Careful row row'
  fresh : ∀ id row', box'.get? id = some row' → box.get? id = none →
    row'.notificationId = id ∧ row'.Honest

section advances

variable {box : Outbox} {change : OutboxRow → OutboxRow}

theorem Advances.refl (box : Outbox) : Advances box box :=
  ⟨fun _ row found => ⟨row, found, .kept rfl⟩, fun _ _ found absent => nomatch absent ▸ found⟩

theorem advances_mapValues
    (careful : ∀ id row, box.get? id = some row → Careful row (change row)) :
    Advances box (box.mapValues change) := by
  refine ⟨fun id row found => ⟨change row, ?_, careful id row found⟩, fun id row' found absent => ?_⟩
  · rw [Dict.get?_mapValues, found, Option.map_some]
  · rw [Dict.get?_mapValues, absent] at found
    exact nomatch found

theorem advances_modify {id : String}
    (careful : ∀ row, box.get? id = some row → Careful row (change row)) :
    Advances box (box.modify id change) := by
  refine ⟨fun other row found => ?_, fun other row' found absent => ?_⟩
  · by_cases here : id = other
    · subst here
      exact ⟨change row, by simp [Dict.get?_modify, found], careful row found⟩
    · exact ⟨row, by simp [Dict.get?_modify, here, found], .kept rfl⟩
  · rw [Dict.get?_modify, absent] at found
    split at found <;> cases found

theorem Advances.trans {a b c : Outbox} (one : Advances a b) (two : Advances b c) :
    Advances a c := by
  refine ⟨fun id row found => ?_, fun id row'' found absent => ?_⟩
  · obtain ⟨row', found', careful⟩ := one.old id row found
    obtain ⟨row'', found'', careful'⟩ := two.old id row' found'
    exact ⟨row'', found'', careful.trans careful'⟩
  · cases middle : b.get? id with
    | none => exact two.fresh id row'' found middle
    | some row' =>
      obtain ⟨named, honest⟩ := one.fresh id row' middle absent
      obtain ⟨last, foundLast, careful⟩ := two.old id row' middle
      obtain rfl := Option.some.inj (found.symm.trans foundLast)
      exact ⟨careful.id.trans named, careful.honest honest⟩

theorem reviewInterrupted_advances (now : Instant) (eligible : Option String) :
    Advances box (reviewInterrupted box now eligible) := by
  refine advances_mapValues fun id row _ => ?_
  split
  · next interrupted =>
    refine .moved ?_ (by simp) rfl rfl
    rw [interrupted.1.1]
    exact nofun
  · exact .kept rfl

theorem OutboxRow.claimable.ne_sent {row : OutboxRow} {now : Instant}
    (claimable : row.claimable now) : row.status ≠ .sent := by
  rintro sent
  rcases claimable with pending | failed | ⟨sending, -⟩
  · exact nomatch pending.symm.trans sent
  · exact nomatch failed.symm.trans sent
  · exact nomatch sending.symm.trans sent

theorem OutboxRow.unsent.ne_sent {row : OutboxRow} (unsent : row.unsent) : row.status ≠ .sent := by
  rintro sent
  rcases unsent.1 with pending | failed
  · exact nomatch pending.symm.trans sent
  · exact nomatch failed.symm.trans sent

theorem claimCandidate_spec {now : Instant} {eligible : Option String} {locked : List String}
    {row : OutboxRow} (candidate : claimCandidate box now eligible locked = some row) :
    row ∈ box.values ∧ row.claimable now := by
  have member := List.mem_of_mem_head? candidate
  rw [List.mem_insertionSort] at member
  obtain ⟨member, chosen⟩ := List.mem_filter.mp member
  exact ⟨member, (of_decide_eq_true chosen).1⟩

theorem refresh_advances (id : String) (payload : Payload) :
    Advances box (refreshUnattemptedDaily box id payload) := by
  refine advances_modify fun row found => ?_
  split
  · next waits => exact .moved waits.2.1.ne_sent nofun rfl rfl
  · exact .kept rfl

theorem enqueue_advances (id : String) (payload : Payload) (createdAt : Instant) :
    Advances box (enqueue box id payload createdAt) := by
  unfold enqueue
  cases present : box.get? id with
  | some row =>
    rw [Dict.setDefault_of_get present]
    exact .refl box
  | none =>
    rw [Dict.setDefault_of_absent present]
    refine ⟨fun other row found => ⟨row, ?_, .kept rfl⟩, fun other row' found absent => ?_⟩
    · rw [Dict.get?_set, if_neg, found]
      rintro rfl
      rw [present] at found
      cases found
    · rw [Dict.get?_set] at found
      split at found
      · next here =>
        obtain rfl := Option.some.inj found
        exact ⟨here, fun accepted => absurd rfl accepted, by intro sent; cases sent⟩
      · rw [absent] at found
        cases found

end advances

def Sound (box : Outbox) : Prop :=
  ∀ id row, box.get? id = some row → row.notificationId = id ∧ row.Honest

theorem Advances.sound {box box' : Outbox} (sound : Sound box) (advances : Advances box box') :
    Sound box' := by
  intro id row' found
  cases before : box.get? id with
  | none => exact advances.fresh id row' found before
  | some row =>
    obtain ⟨last, foundLast, careful⟩ := advances.old id row before
    obtain rfl := Option.some.inj (found.symm.trans foundLast)
    exact ⟨careful.id.trans (sound id row before).1, careful.honest (sound id row before).2⟩

section transactions

variable {box : Outbox} (sound : Sound box)
include sound

theorem Sound.get?_of_mem {row : OutboxRow} (member : row ∈ box.values) :
    box.get? row.notificationId = some row := by
  obtain ⟨id, found⟩ := Dict.mem_values.mp member
  exact (sound id row found).1 ▸ found

theorem claimNext_advances (now : Instant) (eligible : Option String) (locked : List String) :
    Advances box (claimNext box now eligible locked).1 := by
  have reviewed : Advances box (reviewInterrupted box now eligible) :=
    reviewInterrupted_advances now eligible
  unfold claimNext
  dsimp only
  split
  · exact reviewed
  · next row candidate =>
    obtain ⟨member, claimable⟩ := claimCandidate_spec candidate
    have at_ := Sound.get?_of_mem (reviewed.sound sound) member
    refine reviewed.trans (advances_modify fun found stored => ?_)
    obtain rfl := Option.some.inj (at_.symm.trans stored)
    exact .moved claimable.ne_sent nofun rfl rfl

theorem claimNext_not_sent {now : Instant} {eligible : Option String} {locked : List String}
    {message : OutboxMessage} {row : OutboxRow} {id : String} (found : box.get? id = some row)
    (sent : row.status = .sent)
    (claimed : (claimNext box now eligible locked).2 = some message) :
    message.notificationId ≠ id := by
  rintro rfl
  have reviewed : Advances box (reviewInterrupted box now eligible) :=
    reviewInterrupted_advances now eligible
  unfold claimNext at claimed
  dsimp only at claimed
  split at claimed
  · exact nomatch claimed
  · next other candidate =>
    obtain rfl := Option.some.inj claimed
    obtain ⟨member, claimable⟩ := claimCandidate_spec candidate
    have at_ := Sound.get?_of_mem (reviewed.sound sound) member
    obtain ⟨row', foundLater, careful⟩ := reviewed.old _ row found
    obtain rfl := Option.some.inj (at_.symm.trans foundLater)
    cases careful with
    | kept same => exact claimable.ne_sent (same ▸ sent)
    | moved unsent => exact unsent sent
    | sent status => exact claimable.ne_sent status

theorem suppressNonDaily_advances (keep : Option String) (locked : List String) :
    Advances box (suppressNonDaily box keep locked) := by
  unfold suppressNonDaily
  refine advances_mapValues fun id row found => ?_
  split
  · next chosen =>
    obtain ⟨other, member, same⟩ := List.mem_map.mp chosen
    obtain ⟨member, waits⟩ := List.mem_filter.mp
      ((List.mem_insertionSort _).mp (List.mem_of_mem_take member))
    have at_ := Sound.get?_of_mem sound member
    rw [same, (sound id row found).1, found] at at_
    obtain rfl := Option.some.inj at_
    exact .moved (of_decide_eq_true waits).1.ne_sent nofun rfl rfl
  · exact .kept rfl

end transactions

/-! ## Runs -/

/-- A failure or a review is recorded only for a notification no provider has accepted. -/
def Unaccepted (p : Pool Outbox Dispatcher) : Event Dispatcher Outside Change → Prop
  | .act i _ => ∀ d, p.threads i = some d → ∀ id, d.task = .failing id ∨ d.task = .reviewing id →
      ∀ row, p.shared.get? id = some row → row.providerMessageId = none
  | _ => True

theorem transact_advances {box : Outbox} (sound : Sound box) (policy : Option DailyEmailPolicy)
    (outside : Outside) {task : Task}
    (unaccepted : ∀ id, task = .failing id ∨ task = .reviewing id →
      ∀ row, box.get? id = some row → row.providerMessageId = none) :
    Advances box (transact box policy outside task).1 := by
  have unsent : ∀ id row, task = .failing id ∨ task = .reviewing id → box.get? id = some row →
      row.status ≠ .sent := fun id row recording found sent =>
    (sound id row found).2.mpr sent (unaccepted id recording row found)
  cases task with
  | suppressing now =>
    cases policy with
    | none => exact .refl box
    | some policy => exact suppressNonDaily_advances sound _ _
  | claiming now eligible => exact claimNext_advances sound now eligible outside.locked
  | reviewing id =>
    exact advances_modify fun row found => .moved (unsent id row (.inr rfl) found) nofun rfl rfl
  | sending message => exact .refl box
  | failing id =>
    exact advances_modify fun row found => .moved (unsent id row (.inl rfl) found) nofun rfl rfl
  | accepted id providerMessageId =>
    exact advances_modify fun row _ => .sent rfl nofun rfl

theorem step_advances {p : Pool Outbox Dispatcher} {event : Event Dispatcher Outside Change}
    (sound : Sound p.shared) (unaccepted : Unaccepted p event) :
    Advances p.shared (dispatchers.step p event).shared := by
  cases event with
  | spawn i d =>
    rw [Program.step]
    split
    · exact .refl _
    · exact .refl _
  | crash i => exact .refl _
  | act i outside =>
    rw [Program.step]
    cases live : p.threads i with
    | none => exact .refl _
    | some d => exact transact_advances sound d.policy outside (unaccepted d live)
  | env change =>
    cases change with
    | enqueue id payload createdAt => exact enqueue_advances id payload createdAt
    | refresh id payload => exact refresh_advances id payload
    | suppress keep locked => exact suppressNonDaily_advances sound keep locked

theorem run_advances {p : Pool Outbox Dispatcher} {events : List (Event Dispatcher Outside Change)}
    (sound : Sound p.shared) (met : dispatchers.Throughout Unaccepted p events) :
    Sound (dispatchers.run p events).shared ∧
      Advances p.shared (dispatchers.run p events).shared := by
  let invariant (q : Pool Outbox Dispatcher) := Sound q.shared ∧ Advances p.shared q.shared
  have start : invariant p := ⟨sound, .refl _⟩
  refine met.run (fun q event held unaccepted => ?_) start
  have advances := step_advances held.1 unaccepted
  exact ⟨advances.sound held.1, held.2.trans advances⟩

/-- A row once sent stays sent, and is not claimed, at every later moment of the run. -/
def StaysSent (events : List (Event Dispatcher Outside Change)) : Prop :=
  ∀ before after, before ++ after <+: events → ∀ id row,
    (dispatchers.run (.idle .empty) before).shared.get? id = some row → row.status = .sent →
    (∃ row', (dispatchers.run (.idle .empty) (before ++ after)).shared.get? id = some row' ∧
      row'.status = .sent) ∧
    ∀ now eligible locked message,
      (claimNext (dispatchers.run (.idle .empty) (before ++ after)).shared now eligible
        locked).2 = some message → message.notificationId ≠ id

theorem sound_empty : Sound .empty := fun _ _ found => nomatch found

theorem Unaccepted.stays {events : List (Event Dispatcher Outside Change)}
    (met : dispatchers.Throughout Unaccepted (.idle .empty) events) : StaysSent events := by
  rintro before after ⟨rest, rfl⟩ id row found sent
  obtain ⟨metBefore, metAfter⟩ := Program.Throughout.append.mp (Program.Throughout.append.mp met).1
  have sound := (run_advances sound_empty metBefore).1
  obtain ⟨soundAfter, advances⟩ := run_advances sound metAfter
  obtain ⟨row', found', careful⟩ := advances.old id row found
  have still : row'.status = .sent := by
    cases careful with
    | kept same => exact same ▸ sent
    | moved unsent => exact absurd sent unsent
    | sent status => exact status
  rw [Program.run_append]
  exact ⟨⟨row', found', still⟩, fun now eligible locked message claimed =>
    claimNext_not_sent soundAfter found' still claimed⟩

/-- Recording a failure or a review takes the row out of the sent ones. -/
theorem recorded_not_sent {p : Pool Outbox Dispatcher} {i : ℕ} {outside : Outside}
    {d : Dispatcher} (live : p.threads i = some d) {id : String}
    (recording : d.task = .failing id ∨ d.task = .reviewing id) {row : OutboxRow}
    (found : (dispatchers.step p (.act i outside)).shared.get? id = some row) :
    row.status ≠ .sent := by
  rw [Program.step, live] at found
  have stored : ∃ status, status ≠ NotificationStatus.sent ∧
      (p.shared.modify id fun row => { row with status }).get? id = some row := by
    obtain ⟨policy, task⟩ := d
    rcases recording with rfl | rfl
    · exact ⟨.failed, by decide, found⟩
    · exact ⟨.needsReview, by decide, found⟩
  obtain ⟨status, unsent, stored⟩ := stored
  rw [Dict.get?_modify, if_pos rfl] at stored
  obtain ⟨before, -, rfl⟩ := Option.map_eq_some_iff.mp stored
  exact unsent

/-- Sent notifications stay sent in a run exactly when every failure or review in it is
recorded for a notification that no provider has accepted. -/
theorem staysSent_iff (events : List (Event Dispatcher Outside Change)) :
    StaysSent events ↔ dispatchers.Throughout Unaccepted (.idle .empty) events := by
  refine ⟨fun stays => ?_, Unaccepted.stays⟩
  induction events using List.reverseRecOn with
  | nil => trivial
  | append_singleton init event ih =>
    have met := ih fun before after inside =>
      stays before after (inside.trans (List.prefix_append _ _))
    refine Program.Throughout.append.mpr ⟨met, ?_, trivial⟩
    have sound := (run_advances sound_empty met).1
    cases event with
    | act i outside =>
      intro d live id recording row found
      by_contra accepted
      have sent := (sound id row found).2.mp accepted
      obtain ⟨⟨row', found', still⟩, -⟩ := stays init [.act i outside] List.prefix_rfl id row found sent
      rw [Program.run_append] at found'
      exact recorded_not_sent live recording found' still
    | spawn | crash | env => trivial

/-! The first dispatcher's delivery outlives its claim. The second takes the claim over and
delivers; then the first learns of a definitive failure and records it. -/

def lateFailure : List (Event Dispatcher Outside Change) :=
  [ .env (.enqueue "status" {} 0),
    .spawn 0 ⟨none, .suppressing 0⟩, .act 0 ⟨0, [], .failed true⟩, .act 0 ⟨0, [], .failed true⟩,
    .spawn 1 ⟨none, .suppressing (3 * minute)⟩, .act 1 ⟨0, [], .failed true⟩,
    .act 1 ⟨0, [], .failed true⟩, .act 1 ⟨0, [], .accepted "re_1"⟩,
    .act 1 ⟨3 * minute, [], .failed true⟩,
    .act 0 ⟨0, [], .failed false⟩, .act 0 ⟨0, [], .failed false⟩ ]

theorem lateFailure_resends : ¬StaysSent lateFailure ∧
    ((claimNext (dispatchers.run (.idle .empty) lateFailure).shared (4 * minute) none []).2.map
      OutboxMessage.notificationId) = some "status" := by
  refine ⟨fun stays => ?_, by decide +kernel⟩
  have sent : ((dispatchers.run (.idle .empty) (lateFailure.take 9)).shared.get? "status").map
      OutboxRow.status = some .sent := by decide +kernel
  have failed : ((dispatchers.run (.idle .empty) lateFailure).shared.get? "status").map
      OutboxRow.status = some .failed := by decide +kernel
  obtain ⟨row, found, status⟩ := Option.map_eq_some_iff.mp sent
  obtain ⟨⟨row', found', still⟩, -⟩ :=
    stays (lateFailure.take 9) (lateFailure.drop 9) List.prefix_rfl "status" row found status
  rw [List.take_append_drop] at found'
  rw [found', Option.map_some, still] at failed
  exact nomatch failed

end TradeAgent.Notification
