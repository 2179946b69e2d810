import Mathlib.Data.List.Basic

/-! Runs of a machine that takes one move after another, and what holds all along them. -/
namespace Machine

variable {σ : Type u} {μ : Type v} (step : σ → μ → σ)

def run (s : σ) (moves : List μ) : σ := moves.foldl step s

/-- Every move meets the condition in the state where it is made. -/
def Along (condition : σ → μ → Prop) : σ → List μ → Prop
  | _, [] => True
  | s, move :: rest => condition s move ∧ Along condition (step s move) rest

instance Along.decidable (condition : σ → μ → Prop) [∀ s m, Decidable (condition s m)] :
    ∀ s moves, Decidable (Along step condition s moves)
  | _, [] => inferInstanceAs (Decidable True)
  | s, move :: rest =>
    haveI := Along.decidable condition (step s move) rest
    inferInstanceAs (Decidable (condition s move ∧ Along step condition (step s move) rest))

@[simp] theorem run_nil (s : σ) : run step s [] = s := rfl

@[simp] theorem run_cons (s : σ) (move : μ) (rest : List μ) :
    run step s (move :: rest) = run step (step s move) rest := rfl

theorem run_append (s : σ) (before after : List μ) :
    run step s (before ++ after) = run step (run step s before) after := List.foldl_append

variable {step}

/-- What every move preserves holds at the end of every run. -/
theorem run_invariant {invariant : σ → Prop} (kept : ∀ s move, invariant s → invariant (step s move))
    {s : σ} (initial : invariant s) (moves : List μ) : invariant (run step s moves) := by
  induction moves generalizing s with
  | nil => exact initial
  | cons move rest ih => exact ih (kept s move initial)

/-- What every move that meets the condition preserves holds at the end of such a run. -/
theorem Along.invariant {condition : σ → μ → Prop} {invariant : σ → Prop}
    (kept : ∀ s move, invariant s → condition s move → invariant (step s move)) {s : σ}
    {moves : List μ} (along : Along step condition s moves) (initial : invariant s) :
    invariant (run step s moves) := by
  induction moves generalizing s with
  | nil => exact initial
  | cons move rest ih => exact ih along.2 (kept s move initial along.1)

theorem Along.append {condition : σ → μ → Prop} {s : σ} {before after : List μ} :
    Along step condition s (before ++ after) ↔
      Along step condition s before ∧ Along step condition (run step s before) after := by
  induction before generalizing s with
  | nil => exact ⟨fun along => ⟨trivial, along⟩, fun along => along.2⟩
  | cons move rest ih =>
    exact ⟨fun along => ⟨⟨along.1, (ih.mp along.2).1⟩, (ih.mp along.2).2⟩,
      fun along => ⟨along.1.1, ih.mpr ⟨along.1.2, along.2⟩⟩⟩

end Machine
