import Mathlib.Data.Nat.Notation
import Mathlib.Logic.Function.Basic

/-! Threads over shared state. Each takes its atomic steps in any order with the others',
starts at any time and may die between any two of its steps; what it had in hand is lost,
the shared state is not. A proof outline says what each thread knows between its steps and
which pairs of threads cannot coexist. -/
namespace Interleaving

/-- A thread's next step reads a `χ` from outside; it ends with no thread. -/
structure Program (σ : Type u) (τ : Type v) (χ : Type w) (ε : Type x) where
  starts : τ → Bool
  act : χ → σ → τ → σ × Option τ
  env : ε → σ → σ

structure Pool (σ : Type u) (τ : Type v) where
  shared : σ
  threads : ℕ → Option τ

inductive Event (τ : Type u) (χ : Type v) (ε : Type w) where
  | spawn (i : ℕ) (t : τ)
  | crash (i : ℕ)
  | act (i : ℕ) (outside : χ)
  | env (change : ε)

variable {σ : Type u} {τ : Type v} {χ : Type w} {ε : Type x}

namespace Pool

def idle (shared : σ) : Pool σ τ := ⟨shared, fun _ => none⟩

def put (p : Pool σ τ) (i : ℕ) (shared : σ) (thread : Option τ) : Pool σ τ :=
  ⟨shared, Function.update p.threads i thread⟩

/-- A condition on a step and each other thread, where it is taken. -/
def Guarded (guard : χ → σ → τ → τ → Prop) (p : Pool σ τ) : Event τ χ ε → Prop
  | .act i outside => ∀ t, p.threads i = some t → ∀ j u, j ≠ i → p.threads j = some u →
      guard outside p.shared t u
  | _ => True

end Pool

namespace Program

variable (P : Program σ τ χ ε)

def step (p : Pool σ τ) : Event τ χ ε → Pool σ τ
  | .spawn i t => if P.starts t ∧ p.threads i = none then p.put i p.shared (some t) else p
  | .crash i => p.put i p.shared none
  | .act i outside =>
    match p.threads i with
    | some t => p.put i (P.act outside p.shared t).1 (P.act outside p.shared t).2
    | none => p
  | .env change => { p with shared := P.env change p.shared }

def run (p : Pool σ τ) (events : List (Event τ χ ε)) : Pool σ τ := events.foldl P.step p

/-- Every step of the run meets the condition where it is taken. -/
def Met (guard : χ → σ → τ → τ → Prop) : Pool σ τ → List (Event τ χ ε) → Prop
  | _, [] => True
  | p, event :: rest => p.Guarded guard event ∧ Met guard (P.step p event) rest

/-- Every event of the run meets the condition where it happens. -/
def Throughout (condition : Pool σ τ → Event τ χ ε → Prop) : Pool σ τ → List (Event τ χ ε) → Prop
  | _, [] => True
  | p, event :: rest => condition p event ∧ Throughout condition (P.step p event) rest

@[simp] theorem run_append (p : Pool σ τ) (before after : List (Event τ χ ε)) :
    P.run p (before ++ after) = P.run (P.run p before) after := List.foldl_append

variable {P} in
/-- What every step preserves where it meets the condition holds at the end of such a run. -/
theorem Throughout.run {condition : Pool σ τ → Event τ χ ε → Prop} {invariant : Pool σ τ → Prop}
    (preserved : ∀ p event, invariant p → condition p event → invariant (P.step p event))
    {p : Pool σ τ} {events : List (Event τ χ ε)} (met : P.Throughout condition p events)
    (initial : invariant p) : invariant (P.run p events) := by
  induction events generalizing p with
  | nil => exact initial
  | cons event rest ih => exact ih met.2 (preserved p event initial met.1)

variable {P} in
theorem Throughout.append {condition : Pool σ τ → Event τ χ ε → Prop} {p : Pool σ τ}
    {before after : List (Event τ χ ε)} :
    P.Throughout condition p (before ++ after) ↔
      P.Throughout condition p before ∧ P.Throughout condition (P.run p before) after := by
  induction before generalizing p with
  | nil => exact ⟨fun met => ⟨trivial, met⟩, fun met => met.2⟩
  | cons event rest ih =>
    exact ⟨fun met => ⟨⟨met.1, (ih.mp met.2).1⟩, (ih.mp met.2).2⟩,
      fun met => ⟨met.1.1, ih.mpr ⟨met.1.2, met.2⟩⟩⟩

theorem met_trivial {guard : χ → σ → τ → τ → Prop} (always : ∀ c s t u, guard c s t u)
    (p : Pool σ τ) (events : List (Event τ χ ε)) : P.Met guard p events := by
  induction events generalizing p with
  | nil => trivial
  | cons event rest ih =>
    refine ⟨?_, ih _⟩
    cases event with
    | act i outside => exact fun _ _ _ _ _ _ => always _ _ _ _
    | spawn | crash | env => trivial

end Program

/-- What each thread knows between its steps, and that no other thread's step takes it away. -/
structure Outline (P : Program σ τ χ ε) (guard : χ → σ → τ → τ → Prop) where
  shared : σ → Prop
  holds : σ → τ → Prop
  apart : τ → τ → Prop
  symmetric {t u : τ} : apart t u → apart u t
  starting {s : σ} {t : τ} : P.starts t → holds s t ∧ ∀ u, apart t u
  own {c : χ} {s : σ} {t : τ} : shared s → holds s t →
    shared (P.act c s t).1 ∧ ∀ t' ∈ (P.act c s t).2, holds (P.act c s t).1 t'
  others {c : χ} {s : σ} {t u : τ} : shared s → holds s t → holds s u → apart t u → guard c s t u →
    holds (P.act c s t).1 u ∧ ∀ t' ∈ (P.act c s t).2, apart t' u
  environment {e : ε} {s : σ} : shared s →
    shared (P.env e s) ∧ ∀ u, holds s u → holds (P.env e s) u

namespace Outline

variable {P : Program σ τ χ ε} {guard : χ → σ → τ → τ → Prop} (O : Outline P guard)

structure Holds (p : Pool σ τ) : Prop where
  shared : O.shared p.shared
  holds : ∀ i t, p.threads i = some t → O.holds p.shared t
  apart : ∀ i j t u, i ≠ j → p.threads i = some t → p.threads j = some u → O.apart t u

theorem holds_idle {shared : σ} (initial : O.shared shared) : O.Holds (Pool.idle shared) where
  shared := initial
  holds _ _ live := by cases live
  apart _ _ _ _ _ live := by cases live

variable {O} in
/-- Replacing one thread, where the others keep what they know and stay apart from it. -/
theorem Holds.put {p : Pool σ τ} (inv : O.Holds p) (i : ℕ) {shared : σ} {thread : Option τ}
    (kept : O.shared shared) (next : ∀ t ∈ thread, O.holds shared t)
    (others : ∀ j u, j ≠ i → p.threads j = some u → O.holds shared u ∧ ∀ t ∈ thread, O.apart t u) :
    O.Holds (p.put i shared thread) where
  shared := kept
  holds j u live := by
    by_cases here : j = i
    · subst here
      exact next u (by simpa [Pool.put] using live)
    · exact (others j u here (by simpa [Pool.put, here] using live)).1
  apart j k t u distinct liveT liveU := by
    by_cases here : j = i
    · subst here
      have live : thread = some t := by simpa [Pool.put] using liveT
      exact (others k u distinct.symm (by simpa [Pool.put, distinct.symm] using liveU)).2 t live
    · have before : p.threads j = some t := by simpa [Pool.put, here] using liveT
      by_cases there : k = i
      · subst there
        have live : thread = some u := by simpa [Pool.put] using liveU
        exact O.symmetric ((others j t here before).2 u live)
      · exact inv.apart j k t u distinct before (by simpa [Pool.put, there] using liveU)

theorem step_holds {p : Pool σ τ} {event : Event τ χ ε} (inv : O.Holds p)
    (met : p.Guarded guard event) : O.Holds (P.step p event) := by
  cases event with
  | spawn i t =>
    rw [Program.step]
    split
    next starts =>
      obtain ⟨known, apart⟩ := O.starting starts.1
      refine inv.put i inv.shared ?_ ?_
      · rintro _ ⟨⟩
        exact known
      · rintro j u - live
        refine ⟨inv.holds j u live, ?_⟩
        rintro _ ⟨⟩
        exact apart u
    next => exact inv
  | crash i =>
    exact inv.put i inv.shared (by simp) fun j u _ live => ⟨inv.holds j u live, by simp⟩
  | act i outside =>
    rw [Program.step]
    cases live : p.threads i with
    | none => exact inv
    | some t =>
      obtain ⟨kept, next⟩ := @O.own outside _ _ inv.shared (inv.holds i t live)
      refine inv.put i kept next fun j u other liveU => ?_
      exact O.others inv.shared (inv.holds i t live) (inv.holds j u liveU)
        (inv.apart i j t u other.symm live liveU) (met t live j u other liveU)
  | env change =>
    obtain ⟨kept, known⟩ := @O.environment change _ inv.shared
    exact ⟨kept, fun i t live => known t (inv.holds i t live), inv.apart⟩

/-- An outline holds throughout every run whose steps meet the condition. -/
theorem run_holds {p : Pool σ τ} {events : List (Event τ χ ε)} (inv : O.Holds p)
    (met : P.Met guard p events) : O.Holds (P.run p events) := by
  induction events generalizing p with
  | nil => exact inv
  | cons event rest ih => exact ih (O.step_holds inv met.1) met.2

end Outline

end Interleaving
