import Mathlib.Data.List.Basic
import Mathlib.Order.Basic

/-! Rolling windows. A window keeps the recent end of a history and drops from its front what has become old;
as long as the history is in order, that is the same as looking through the whole of it. -/
namespace Window

variable {α : Type u} {τ : Type v}

/-- The window with its old front dropped. -/
def trim (old : τ → α → Bool) (cutoff : τ) (kept : List α) : List α := kept.dropWhile (old cutoff)

/-- The entries of a history that are not old. -/
def recent (old : τ → α → Bool) (cutoff : τ) (history : List α) : List α := history.filter fun a => !old cutoff a

/-- Age follows the order of the history, and what is old stays old. -/
structure Ages [LE τ] (before : α → α → Prop) (old : τ → α → Bool) : Prop where
  earlier : ∀ cutoff a b, before a b → old cutoff b = true → old cutoff a = true
  later : ∀ cutoff cutoff' a, cutoff ≤ cutoff' → old cutoff a = true → old cutoff' a = true

section

variable {before : α → α → Prop} {old : τ → α → Bool}

@[simp] theorem recent_nil (cutoff : τ) : recent old cutoff [] = [] := rfl

theorem recent_append (cutoff : τ) (history rest : List α) :
    recent old cutoff (history ++ rest) = recent old cutoff history ++ recent old cutoff rest :=
  List.filter_append ..

theorem recent_sublist (cutoff : τ) (history : List α) : (recent old cutoff history).Sublist history :=
  List.filter_sublist

/-- Dropping from the front of an ordered history finds all that is old. -/
theorem trim_ordered [LE τ] (ages : Ages before old) (cutoff : τ) {history : List α}
    (ordered : history.Pairwise before) : trim old cutoff history = recent old cutoff history := by
  induction history with
  | nil => rfl
  | cons a rest ih =>
    obtain ⟨first, ordered⟩ := List.pairwise_cons.mp ordered
    unfold trim recent at ih ⊢
    cases gone : old cutoff a with
    | true => rw [List.dropWhile_cons_of_pos gone, List.filter_cons_of_neg (by simp [gone]), ih ordered]
    | false =>
      rw [List.dropWhile_cons_of_neg (by simp [gone]), List.filter_cons_of_pos (by simp [gone])]
      -- What comes after an entry that is not old is not old either.
      refine congrArg _ (List.filter_eq_self.mpr fun b member => ?_).symm
      cases late : old cutoff b with
      | false => rfl
      | true => rw [ages.earlier cutoff a b (first b member) late] at gone; cases gone

/-- A second look finds in the window what it would find in the history. -/
theorem recent_recent [LE τ] (ages : Ages before old) {cutoff cutoff' : τ} (later : cutoff ≤ cutoff')
    (history : List α) : recent old cutoff' (recent old cutoff history) = recent old cutoff' history := by
  unfold recent
  rw [List.filter_filter]
  refine List.filter_congr fun a _ => ?_
  cases gone : old cutoff a with
  | true => rw [ages.later cutoff cutoff' a later gone]; rfl
  | false => simp

/-- Trimming the window again is looking through the whole history again. -/
theorem trim_recent [LE τ] (ages : Ages before old) {cutoff cutoff' : τ} (later : cutoff ≤ cutoff')
    {history : List α} (ordered : history.Pairwise before) :
    trim old cutoff' (recent old cutoff history) = recent old cutoff' history := by
  rw [trim_ordered ages cutoff' (ordered.sublist (recent_sublist cutoff history)), recent_recent ages later]

end

end Window
