import Mathlib.Data.List.TakeWhile
import Mathlib.Order.Lattice

/-! Append-only logs of which only a recent end is kept, and searches from the newest
entry backwards. A search over the kept end agrees with the one over the whole log
wherever its answer is young enough to have been kept. -/
namespace Retention

/-- What a backward search does at one entry. -/
inductive Verdict (β : Type v) where
  | skip
  | stop
  | take (b : β)

/-- The first verdict other than `skip`, newest entry first. -/
def latest (judge : α → Verdict β) : List α → Option β
  | [] => none
  | a :: older => match judge a with
    | .skip => latest judge older
    | .stop => none
    | .take b => some b

theorem latest_mem {judge : α → Verdict β} {l : List α} {b : β} (found : latest judge l = some b) :
    ∃ a ∈ l, judge a = .take b := by
  induction l with
  | nil => cases found
  | cons a older ih =>
    simp only [latest] at found
    split at found
    next =>
      obtain ⟨e, member, taken⟩ := ih found
      exact ⟨e, List.mem_cons_of_mem _ member, taken⟩
    next => cases found
    next taken => cases found; exact ⟨a, List.mem_cons_self, taken⟩

/-- Further entries behind a successful search do not matter. -/
theorem latest_append {judge : α → Verdict β} {newer : List α} {b : β} (older : List α)
    (found : latest judge newer = some b) : latest judge (newer ++ older) = some b := by
  induction newer with
  | nil => cases found
  | cons a rest ih =>
    simp only [latest] at found
    simp only [List.cons_append, latest]
    split at found
    next => exact ih found
    next => cases found
    next => exact found

theorem latest_append_none {judge : α → Verdict β} {newer older : List α}
    (missing : latest judge newer = none) :
    latest judge (newer ++ older) = none ∨ latest judge (newer ++ older) = latest judge older := by
  induction newer with
  | nil => exact .inr rfl
  | cons a rest ih =>
    simp only [latest] at missing
    simp only [List.cons_append, latest]
    split at missing
    next => exact ih missing
    next => exact .inl rfl
    next => cases missing

/-- Entries the search skips may arrive later without changing its answer. -/
theorem latest_skip {judge : α → Verdict β} {newer : List α} (older : List α)
    (skipped : ∀ a ∈ newer, judge a = .skip) :
    latest judge (newer ++ older) = latest judge older := by
  induction newer with
  | nil => rfl
  | cons a rest ih =>
    rw [List.forall_mem_cons] at skipped
    simp only [List.cons_append, latest, skipped.1]
    exact ih skipped.2

variable {T : Type w} [LinearOrder T] (time : α → T)

/-- Drop entries older than the horizon from the old end. -/
def prune (horizon : T) (l : List α) : List α := l.dropWhile fun a => time a < horizon

/-- `kept` is the log less some old entries, all older than the horizon. -/
def Retains (horizon : T) (log kept : List α) : Prop :=
  ∃ dropped, log = dropped ++ kept ∧ ∀ a ∈ dropped, time a < horizon

variable {time} {horizon : T} {log kept : List α}

theorem Retains.whole (horizon : T) (log : List α) : Retains time horizon log log := ⟨[], rfl, by simp⟩

theorem Retains.push (retains : Retains time horizon log kept) (recent : List α) :
    Retains time horizon (log ++ recent) (kept ++ recent) := by
  obtain ⟨dropped, split, old⟩ := retains
  exact ⟨dropped, by rw [split, List.append_assoc], old⟩

theorem Retains.later (retains : Retains time horizon log kept) {next : T} (le : horizon ≤ next) :
    Retains time next log kept := by
  obtain ⟨dropped, split, old⟩ := retains
  exact ⟨dropped, split, fun a member => lt_of_lt_of_le (old a member) le⟩

theorem Retains.prune (retains : Retains time horizon log kept) :
    Retains time horizon log (prune time horizon kept) := by
  obtain ⟨dropped, split, old⟩ := retains
  refine ⟨dropped ++ kept.takeWhile fun a => time a < horizon, ?_, ?_⟩
  · rw [split, List.append_assoc, Retention.prune, List.takeWhile_append_dropWhile]
  · intro a member
    rcases List.mem_append.mp member with before | pruned
    · exact old a before
    · simpa using List.mem_takeWhile_imp pruned

theorem Retains.subset (retains : Retains time horizon log kept) : kept ⊆ log := by
  obtain ⟨dropped, split, -⟩ := retains
  rw [split]
  exact List.subset_append_right _ _

variable {judge : α → Verdict β} {b : β}

/-- Whatever the kept end finds, the whole log finds too. -/
theorem Retains.latest_sound (retains : Retains time horizon log kept)
    (found : latest judge kept.reverse = some b) : latest judge log.reverse = some b := by
  obtain ⟨dropped, split, -⟩ := retains
  rw [split, List.reverse_append]
  exact latest_append _ found

/-- An answer no older than the horizon is found in the kept end. -/
theorem Retains.latest_complete (retains : Retains time horizon log kept)
    (found : latest judge log.reverse = some b)
    (recent : ∀ a, judge a = .take b → horizon ≤ time a) :
    latest judge kept.reverse = some b := by
  obtain ⟨dropped, split, old⟩ := retains
  rw [split, List.reverse_append] at found
  cases here : latest judge kept.reverse with
  | some c => rw [← found, latest_append _ here]
  | none =>
    rcases latest_append_none here with missing | behind
    · rw [missing] at found; cases found
    · rw [behind] at found
      obtain ⟨a, member, taken⟩ := latest_mem found
      exact absurd (old a (List.mem_reverse.mp member)) (not_lt.mpr (recent a taken))

end Retention
