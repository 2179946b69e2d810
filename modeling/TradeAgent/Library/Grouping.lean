import Mathlib.Algebra.BigOperators.Group.Finset.Piecewise
import Mathlib.Algebra.Order.BigOperators.Group.Finset
import TradeAgent.Library.Dict

/-! Amounts added up in groups: by a dictionary, in any order, and rounded by group. Rounding that is subadditive adds
less the coarser the groups are. -/
namespace Grouping

open Finset

variable {α : Type u} {κ : Type v} {μ : Type w} {M : Type*} [DecidableEq κ] [DecidableEq μ]

section members

/-- The members of every group of a list, group by group, are those of the list. -/
theorem perm_groups (key : α → κ) (l : List α) {keys : List κ} (distinct : keys.Nodup)
    (covers : ∀ a ∈ l, key a ∈ keys) : (keys.flatMap fun k => l.filter fun a => key a = k).Perm l := by
  induction l with
  | nil => simp
  | cons a rest ih =>
    have later := ih fun b member => covers b (List.mem_cons_of_mem a member)
    refine .trans ?_ (later.cons a)
    obtain ⟨before, after, rfl⟩ := List.append_of_mem (covers a List.mem_cons_self)
    have apart := List.nodup_middle.mp distinct
    rw [List.nodup_cons] at apart
    have others (ks : List κ) (absent : key a ∉ ks) : (ks.flatMap fun k => (a :: rest).filter fun b => key b = k) =
        ks.flatMap fun k => rest.filter fun b => key b = k := by
      refine List.flatMap_congr fun k member => ?_
      rw [List.filter_cons_of_neg]
      rw [decide_eq_true_eq]
      exact fun same => absent (same ▸ member)
    simp only [List.mem_append, not_or] at apart
    rw [List.flatMap_append, List.flatMap_append, List.flatMap_cons, List.flatMap_cons, others before apart.1.1,
      others after apart.1.2, List.filter_cons_of_pos (by simp)]
    exact List.perm_middle

/-- Adding a member to one of the groups adds it to them all. -/
theorem flatten_modify (groups : List (List α)) (index : ℕ) (inside : index < groups.length) (a : α) :
    (groups.modify index (· ++ [a])).flatten.Perm (groups.flatten ++ [a]) := by
  induction groups generalizing index with
  | nil => simp at inside
  | cons first rest ih =>
    cases index with
    | zero =>
      simp only [List.modify_zero_cons, List.flatten_cons, List.append_assoc]
      exact List.perm_append_comm.append_left first
    | succ index =>
      simp only [List.modify_succ_cons, List.flatten_cons, List.append_assoc]
      exact (ih index (by simpa using inside)).append_left first

end members

section sums

variable [AddCommMonoid M]

/-- What the members of a group amount to. -/
def sumOf (key : α → κ) (amount : α → M) (l : List α) (k : κ) : M :=
  ((l.filter fun a => key a = k).map amount).sum

/-- The groups that have a member. -/
def groups (key : α → κ) (l : List α) : Finset κ := (l.map key).toFinset

theorem mem_groups {key : α → κ} {l : List α} {k : κ} : k ∈ groups key l ↔ ∃ a ∈ l, key a = k := by
  unfold groups
  rw [List.mem_toFinset, List.mem_map]

theorem sumOf_cons (key : α → κ) (amount : α → M) (a : α) (l : List α) (k : κ) :
    sumOf key amount (a :: l) k = (if key a = k then amount a else 0) + sumOf key amount l k := by
  unfold sumOf
  by_cases same : key a = k
  · simp [same]
  · simp [same]

theorem sumOf_perm {l l' : List α} (perm : l.Perm l') (key : α → κ) (amount : α → M) (k : κ) :
    sumOf key amount l k = sumOf key amount l' k :=
  ((perm.filter _).map amount).sum_eq

theorem groups_perm {l l' : List α} (perm : l.Perm l') (key : α → κ) : groups key l = groups key l' :=
  List.toFinset_eq_of_perm _ _ (perm.map key)

/-- A coarser group amounts to what its finer ones do. -/
theorem sumOf_coarse (key : α → κ) (f : κ → μ) (amount : α → M) (l : List α) (m : μ) :
    sumOf (fun a => f (key a)) amount l m = ∑ k ∈ groups key l with f k = m, sumOf key amount l k := by
  have whole : ∀ s : Finset κ, (∀ a ∈ l, key a ∈ s) →
      sumOf (fun a => f (key a)) amount l m = ∑ k ∈ s with f k = m, sumOf key amount l k := by
    intro s covers
    induction l with
    | nil => exact (Finset.sum_eq_zero fun _ _ => rfl).symm
    | cons a rest ih =>
      rw [sumOf_cons, ih fun b member => covers b (List.mem_cons_of_mem a member)]
      rw [Finset.sum_congr rfl fun k _ => sumOf_cons key amount a rest k, Finset.sum_add_distrib]
      congr 1
      rw [Finset.sum_ite_eq]
      exact if_congr (by simp [covers a List.mem_cons_self]) rfl rfl
  exact whole _ fun a member => mem_groups.mpr ⟨a, member, rfl⟩

/-- Adds every amount to its group. -/
def accumulate (key : α → κ) (amount : α → M) (l : List α) (d : Dict κ M) : Dict κ M :=
  l.foldl (fun d a => d.set (key a) (d.getD (key a) 0 + amount a)) d

theorem get?_accumulate (key : α → κ) (amount : α → M) (l : List α) (d : Dict κ M) (k : κ) :
    (accumulate key amount l d).get? k =
      if k ∈ groups key l then some (d.getD k 0 + sumOf key amount l k) else d.get? k := by
  induction l generalizing d with
  | nil => exact (if_neg (by simp [groups])).symm
  | cons a rest ih =>
    change (accumulate key amount rest _).get? k = _
    rw [ih, sumOf_cons, Dict.getD_set, Dict.get?_set]
    have cons : k ∈ groups key (a :: rest) ↔ key a = k ∨ k ∈ groups key rest := by
      rw [mem_groups, mem_groups]
      simp
    by_cases own : key a = k
    · rw [if_pos own, if_pos own, if_pos own, if_pos (cons.mpr (.inl own)), own]
      by_cases more : k ∈ groups key rest
      · rw [if_pos more, add_assoc]
      · have none_ : sumOf key amount rest k = 0 := by
          unfold sumOf
          rw [List.filter_eq_nil_iff.mpr fun b member same => more (mem_groups.mpr ⟨b, member, of_decide_eq_true same⟩)]
          rfl
        rw [if_neg more, none_, add_zero]
    · rw [if_neg own, if_neg own, if_neg own, zero_add]
      by_cases more : k ∈ groups key rest
      · rw [if_pos more, if_pos (cons.mpr (.inr more))]
      · rw [if_neg more, if_neg fun either => (cons.mp either).elim own more]

/-- The sum over some entries of a dictionary, by their keys. -/
theorem sum_entries (d : Dict κ M) (f : M → M) (p : κ → Prop) [DecidablePred p] :
    ((d.entries.filter fun e => p e.1).map fun e => f e.2).sum = ∑ k ∈ d.keys.toFinset with p k, f (d.getD k 0) := by
  have named : d.entries.filter (fun e => p e.1) =
      (d.keys.filter fun k => p k).map fun k => (k, d.getD k 0) := by
    unfold Dict.keys
    rw [List.filter_map, List.map_map]
    refine ((List.map_congr_left fun e member => ?_).trans (List.map_id _)).symm
    have found : d.get? e.1 = some e.2 := Dict.mem_entries.mp (List.mem_of_mem_filter member)
    dsimp only [Function.comp]
    rw [Dict.getD, found]
    rfl
  have keys : d.keys.toFinset.filter p = (d.keys.filter fun k => p k).toFinset := by
    ext k
    simp
  have distinct : (d.keys.filter fun k => p k).Nodup := d.distinct.filter _
  rw [named, List.map_map, keys, List.sum_toFinset _ distinct]
  rfl

end sums

section rounding

variable [AddCommMonoid M] [PartialOrder M] [IsOrderedAddMonoid M] {round : M → M}

/-- Rounding that adds nothing to nothing, and less to a sum than to its parts. -/
structure Subadditive (round : M → M) : Prop where
  zero : round 0 = 0
  add : ∀ x y, round (x + y) ≤ round x + round y

/-- Rounding coarser groups adds no more than rounding finer ones. -/
theorem Subadditive.coarse (h : Subadditive round) (key : α → κ) (f : κ → μ) (amount : α → M) (l : List α)
    (p : μ → Prop) [DecidablePred p] :
    ∑ m ∈ groups (fun a => f (key a)) l with p m, round (sumOf (fun a => f (key a)) amount l m) ≤
      ∑ k ∈ groups key l with p (f k), round (sumOf key amount l k) := by
  have onto : ∀ k ∈ (groups key l).filter fun k => p (f k),
      f k ∈ (groups (fun a => f (key a)) l).filter p := by
    intro k member
    obtain ⟨group, holds⟩ := Finset.mem_filter.mp member
    obtain ⟨a, a_, rfl⟩ := mem_groups.mp group
    exact Finset.mem_filter.mpr ⟨mem_groups.mpr ⟨a, a_, rfl⟩, holds⟩
  rw [← Finset.sum_fiberwise_of_maps_to onto]
  refine Finset.sum_le_sum fun m member => ?_
  have holds : p m := (Finset.mem_filter.mp member).2
  have fiber : (groups key l).filter (fun k => f k = m) =
      ((groups key l).filter fun k => p (f k)).filter fun k => f k = m := by
    rw [Finset.filter_filter]
    exact Finset.filter_congr fun k _ => ⟨fun same => ⟨same ▸ holds, same⟩, fun both => both.2⟩
  rw [sumOf_coarse, fiber]
  exact Finset.le_sum_of_subadditive round h.zero.le h.add _ _

/-- Rounding a group adds no more than rounding its members. -/
theorem Subadditive.members (h : Subadditive round) (key : α → κ) (amount : α → M) (l : List α) (k : κ) :
    round (sumOf key amount l k) ≤ sumOf key (fun a => round (amount a)) l k := by
  unfold sumOf
  induction l.filter fun a => key a = k with
  | nil => exact h.zero.le
  | cons a rest ih =>
    rw [List.map_cons, List.sum_cons, List.map_cons, List.sum_cons]
    exact (h.add _ _).trans (add_le_add le_rfl ih)

end rounding

end Grouping
