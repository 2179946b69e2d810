import Mathlib.Data.Finset.Card
import Mathlib.Data.List.Sort
import Mathlib.Order.Lattice

/-! A roster of few members, and who among those that compete are the first. -/

structure Roster (α : Type u) (n : ℕ) where
  members : Finset α
  few : members.card ≤ n

namespace Roster

variable {α : Type u} {n : ℕ}

def empty : Roster α n := ⟨∅, Nat.zero_le n⟩

def keep (r : Roster α n) (test : α → Bool) : Roster α n where
  members := r.members.filter fun a => test a = true
  few := (Finset.card_filter_le _ _).trans r.few

variable [DecidableEq α]

def drop (r : Roster α n) (a : α) : Roster α n where
  members := r.members.erase a
  few := (Finset.card_erase_le).trans r.few

/-- The first of the candidates. -/
def pick (candidates : List α) : Roster α n where
  members := (candidates.take n).toFinset
  few := (List.toFinset_card_le _).trans (List.length_take_le n candidates)

omit [DecidableEq α] in
@[simp] theorem mem_empty (a : α) : a ∈ (empty : Roster α n).members ↔ False := by simp [empty]

omit [DecidableEq α] in
@[simp] theorem mem_keep (r : Roster α n) (test : α → Bool) (a : α) :
    a ∈ (r.keep test).members ↔ a ∈ r.members ∧ test a = true := Finset.mem_filter

@[simp] theorem mem_drop (r : Roster α n) (a b : α) : b ∈ (r.drop a).members ↔ b ≠ a ∧ b ∈ r.members :=
  Finset.mem_erase

@[simp] theorem mem_pick (candidates : List α) (a : α) :
    a ∈ (pick candidates : Roster α n).members ↔ a ∈ candidates.take n := List.mem_toFinset

end Roster

namespace Ranking

variable {β : Type u} {κ : Type v} [LinearOrder κ] (key : β → κ)

/-- The list by its keys, the least first. -/
def ranked (l : List β) : List β := l.mergeSort fun a b => decide (key a ≤ key b)

variable {key}

theorem ranked_perm (l : List β) : (ranked key l).Perm l := List.mergeSort_perm _ _

theorem ranked_increasing {l : List β} (distinct : (l.map key).Nodup) :
    (ranked key l).Pairwise fun a b => key a < key b := by
  have sorted : (ranked key l).Pairwise fun a b => decide (key a ≤ key b) = true :=
    List.pairwise_mergeSort (by simpa using fun a b c => le_trans) (by simpa using fun a b => le_total _ _) l
  have apart : (ranked key l).Pairwise fun a b => key a ≠ key b :=
    List.pairwise_map.mp (((ranked_perm l).map key).nodup_iff.mpr distinct)
  refine (sorted.and apart).imp fun both => ?_
  exact lt_of_le_of_ne (of_decide_eq_true both.1) both.2

theorem mem_take_increasing {l : List β} (increasing : l.Pairwise fun a b => key a < key b) (n : ℕ) (b : β) :
    b ∈ l.take n ↔ b ∈ l ∧ l.countP (fun a => decide (key a < key b)) < n := by
  induction l generalizing n with
  | nil => simp
  | cons a rest ih =>
    obtain ⟨least, others⟩ := List.pairwise_cons.mp increasing
    cases n with
    | zero => simp
    | succ n =>
      rw [List.take_succ_cons, List.mem_cons, List.mem_cons, ih others]
      by_cases here : b = a
      · subst here
        have none_ : rest.countP (fun a => decide (key a < key b)) = 0 := by
          simpa [List.countP_eq_zero] using fun c inside => (least c inside).le
        simp [none_]
      · have above : b ∈ rest → (a :: rest).countP (fun a => decide (key a < key b)) =
            rest.countP (fun a => decide (key a < key b)) + 1 := by
          intro inside
          simp [least b inside]
        constructor
        · rintro (same | ⟨inside, ahead⟩)
          · exact absurd same here
          · exact ⟨.inr inside, by rw [above inside]; omega⟩
        · rintro ⟨same | inside, ahead⟩
          · exact absurd same here
          · rw [above inside] at ahead
            exact .inr ⟨inside, by omega⟩

/-- The first few are those with fewer than that many ahead of them. -/
theorem mem_take_ranked {l : List β} (distinct : (l.map key).Nodup) (n : ℕ) (b : β) :
    b ∈ (ranked key l).take n ↔ b ∈ l ∧ l.countP (fun a => decide (key a < key b)) < n := by
  rw [mem_take_increasing (ranked_increasing distinct), (ranked_perm l).mem_iff, (ranked_perm l).countP_eq]

end Ranking
