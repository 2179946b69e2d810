import TradeAgent.Library.Dict

/-! Append-only logs that record a value for a key now and then. The value of a key is the one recorded last; a reader
that looks at the newest events only sees it exactly if it is among them. -/
namespace EventLog

variable {ε : Type u} {κ : Type v} {α : Type w} [DecidableEq κ] (entry : ε → Option (κ × α))

/-- What an event records for a key. -/
def about (key : κ) (event : ε) : Option α :=
  (entry event).bind fun e => if e.1 = key then some e.2 else none

/-- What the log records last for a key. -/
def latest (log : List ε) (key : κ) : Option α := log.reverse.findSome? (about entry key)

/-- The newest events of a log, the last one first. -/
def newest (limit : ℕ) (log : List ε) : List ε := log.reverse.take limit

/-- The first value of each key, over events from the newest on. -/
def firsts (events : List ε) : Dict κ α :=
  events.foldl (fun found event => (entry event).elim found fun e => found.setDefault e.1 e.2) .empty

variable {entry}

theorem about_eq_some {key : κ} {event : ε} {value : α} :
    about entry key event = some value ↔ entry event = some (key, value) := by
  unfold about
  cases recorded : entry event with
  | none => simp
  | some e =>
    obtain ⟨other, value'⟩ := e
    by_cases same : other = key <;> simp [same]

theorem latest_append (log extra : List ε) (key : κ) :
    latest entry (log ++ extra) key = (latest entry extra key).or (latest entry log key) := by
  simp [latest, List.reverse_append, List.findSome?_append]

theorem latest_none {log : List ε} {key : κ} (silent : ∀ event ∈ log, about entry key event = none) :
    latest entry log key = none :=
  List.findSome?_eq_none_iff.mpr fun event member => silent event (List.mem_reverse.mp member)

/-- What is latest is recorded by some event. -/
theorem latest_mem {log : List ε} {key : κ} {value : α} (found : latest entry log key = some value) :
    ∃ event ∈ log, entry event = some (key, value) := by
  obtain ⟨event, member, recorded⟩ := List.exists_of_findSome?_eq_some found
  exact ⟨event, List.mem_reverse.mp member, about_eq_some.mp recorded⟩

/-- Where all that is recorded for a key agrees, that is its latest value. -/
theorem latest_of_agree {log : List ε} {key : κ} {value : α}
    (agree : ∀ event ∈ log, ∀ other, about entry key event = some other → other = value) {event : ε}
    (member : event ∈ log) (recorded : about entry key event = some value) : latest entry log key = some value := by
  cases found : latest entry log key with
  | none =>
    have silent := List.findSome?_eq_none_iff.mp found event (List.mem_reverse.mpr member)
    rw [recorded] at silent
    cases silent
  | some other =>
    obtain ⟨source, inside, supplied⟩ := latest_mem found
    rw [agree source inside other (about_eq_some.mpr supplied)]

theorem newest_append (limit : ℕ) (log extra : List ε) :
    newest limit (log ++ extra) = newest limit extra ++ newest (limit - extra.length) log := by
  simp [newest, List.reverse_append, List.take_append]

/-- What is found among the newest events is the latest value. -/
theorem newest_latest {limit : ℕ} {log : List ε} {key : κ} {value : α}
    (found : (newest limit log).findSome? (about entry key) = some value) : latest entry log key = some value := by
  unfold latest
  rw [← List.take_append_drop limit log.reverse, List.findSome?_append]
  change ((newest limit log).findSome? (about entry key)).or _ = _
  rw [found]
  rfl

theorem get?_firsts (events : List ε) (key : κ) :
    (firsts entry events).get? key = events.findSome? (about entry key) := by
  suffices whole : ∀ found : Dict κ α, (events.foldl (fun found event =>
      (entry event).elim found fun e => found.setDefault e.1 e.2) found).get? key =
      (found.get? key).or (events.findSome? (about entry key)) by
    exact (whole .empty).trans (by simp)
  induction events with
  | nil => simp
  | cons event rest ih =>
    intro found
    rw [List.foldl_cons, ih, List.findSome?_cons]
    cases recorded : entry event with
    | none => simp [about, recorded]
    | some e =>
      obtain ⟨other, value⟩ := e
      simp only [Option.elim_some, Dict.get?_setDefault, about, recorded, Option.bind_some]
      by_cases same : other = key
      · subst same
        cases found.get? other <;> simp
      · simp [same]

end EventLog
