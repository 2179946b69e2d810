import Mathlib.Data.List.Induction

/-! Logs that are only appended to: what every event must find before it, and what came since the last of a kind. -/
namespace History

variable {ε : Type u}

/-- Every event fits what came before it. -/
def Each (fits : List ε → ε → Prop) (log : List ε) : Prop :=
  ∀ before event after, log = before ++ event :: after → fits before event

/-- Events that fit, one after another, what there is so far. -/
def Extends (fits : List ε → ε → Prop) : List ε → List ε → Prop
  | _, [] => True
  | log, event :: rest => fits log event ∧ Extends fits (log ++ [event]) rest

/-- What joined at some moment stayed at every later one. -/
def Since (stays joins : List ε → ε → Prop) (log : List ε) : Prop :=
  ∃ before event after, log = before ++ event :: after ∧ joins before event ∧
    ∀ mid later rest, after = mid ++ later :: rest → stays (before ++ event :: mid) later

/-- What came since the last of the marks, the newest first. -/
def since (marks : ε → Bool) (log : List ε) : List ε := log.reverse.takeWhile fun event => !marks event

variable {fits : List ε → ε → Prop} {marks : ε → Bool} {log more : List ε} {event : ε}

theorem Each.nil : Each fits [] := by
  intro before event after split
  simp at split

theorem Each.snoc (h : Each fits log) (now : fits log event) : Each fits (log ++ [event]) := by
  intro before other after split
  cases after using List.reverseRecOn with
  | nil =>
    obtain ⟨rfl, last⟩ := List.append_inj' split rfl
    cases last
    exact now
  | append_singleton rest last =>
    rw [← List.cons_append, ← List.append_assoc] at split
    exact h before other rest (List.append_inj' split rfl).1

theorem Each.append (h : Each fits log) (next : Extends fits log more) : Each fits (log ++ more) := by
  induction more generalizing log with
  | nil => rwa [List.append_nil]
  | cons event rest ih =>
    rw [List.append_cons]
    exact ih (h.snoc next.1) next.2

theorem Extends.of_forall (all : ∀ event ∈ more, ∀ before, fits before event) : Extends fits log more := by
  induction more generalizing log with
  | nil => trivial
  | cons event rest ih =>
    obtain ⟨first, others⟩ := List.forall_mem_cons.mp all
    exact ⟨first log, ih others⟩

@[simp] theorem since_nil : since marks [] = [] := rfl

theorem since_append (none_ : ∀ event ∈ more, marks event = false) :
    since marks (log ++ more) = more.reverse ++ since marks log := by
  unfold since
  rw [List.reverse_append, List.takeWhile_append_of_pos]
  intro event member
  rw [none_ event (List.mem_reverse.mp member)]
  rfl

theorem since_mark (marked : marks event = true) : since marks (log ++ [event]) = [] := by
  unfold since
  rw [List.reverse_append, List.reverse_singleton, List.singleton_append, List.takeWhile_cons, marked]
  rfl

/-- What came since a mark is of the log. -/
theorem mem_of_mem_since (member : event ∈ since marks log) : event ∈ log :=
  List.mem_reverse.mp ((List.takeWhile_sublist _).subset member)

/-- What stands after a turn, because it stood before and stays or because it joins, is what joined once and stayed. -/
theorem since_iff {stands : List ε → Prop} {stays joins : List ε → ε → Prop} (first : ¬stands [])
    (turn : ∀ past event, stands (past ++ [event]) ↔ stands past ∧ stays past event ∨ joins past event)
    (log : List ε) : stands log ↔ Since stays joins log := by
  induction log using List.reverseRecOn with
  | nil => simp [first, Since]
  | append_singleton past last ih =>
    rw [turn, ih]
    constructor
    · rintro (⟨⟨before, event, after, rfl, joined, stayed⟩, stay⟩ | joined)
      · refine ⟨before, event, after ++ [last], by simp, joined, fun mid later rest split => ?_⟩
        cases rest using List.reverseRecOn with
        | nil =>
          obtain ⟨rfl, newest⟩ := List.append_inj' split rfl
          cases newest
          exact stay
        | append_singleton rest newest =>
          rw [← List.cons_append, ← List.append_assoc] at split
          exact stayed mid later rest (List.append_inj' split rfl).1
      · exact ⟨past, last, [], rfl, joined, by simp⟩
    · rintro ⟨before, event, after, split, joined, stayed⟩
      cases after using List.reverseRecOn with
      | nil =>
        obtain ⟨rfl, newest⟩ := List.append_inj' split rfl
        cases newest
        exact .inr joined
      | append_singleton after newest =>
        rw [← List.cons_append, ← List.append_assoc] at split
        obtain ⟨rfl, same⟩ := List.append_inj' split rfl
        cases same
        refine .inl ⟨⟨before, event, after, rfl, joined, fun mid later rest split => ?_⟩, stayed after last [] rfl⟩
        exact stayed mid later (rest ++ [last]) (by rw [split]; simp)

end History
