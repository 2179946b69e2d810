import Mathlib.Data.List.Induction
import Mathlib.Data.List.Sort
import TradeAgent.Library.Dict
import TradeAgent.Library.EventLog

/-! The top levels of a book. One party keeps a whole book and announces what happens within its best levels; the
other keeps the best levels only, and has them right as long as it hears every announcement. -/
namespace TopLevels

/-- An order on prices, as a test that ranks the better price first. -/
structure Ranks {κ : Type u} (better : κ → κ → Bool) : Prop where
  trans : ∀ a b c, better a b = true → better b c = true → better a c = true
  total : ∀ a b, (better a b || better b a) = true
  antisymm : ∀ a b, better a b = true → better b a = true → a = b

variable {κ : Type u} {ν : Type v} [DecidableEq κ] (better : κ → κ → Bool) (n : ℕ)

/-- All levels, the best first. -/
def ranked (book : Dict κ ν) : List (κ × ν) := book.entries.mergeSort fun a b => better a.1 b.1

/-- The best levels. -/
def top (book : Dict κ ν) : List (κ × ν) := (ranked better book).take n

/-- One line of an announcement: a price with its quantity, or a price that is gone. -/
abbrev Update (κ : Type u) (ν : Type v) := κ × Option ν

def change (book : Dict κ ν) (update : Update κ ν) : Dict κ ν :=
  match update.2 with
  | some quantity => book.set update.1 quantity
  | none => book.erase update.1

/-- The last word on a price. -/
def word (updates : List (Update κ ν)) (price : κ) : Option (Option ν) := EventLog.latest some updates price

/-- The announcement of a change of the whole book: every level that is new among the best or has a new quantity there,
and every level that was among the best and is gone. A level that is only pushed out is not announced, and no level is
announced that the book has not. -/
structure Announces (before after : Dict κ ν) (updates : List (Update κ ν)) : Prop where
  placed : ∀ e ∈ top better n after,
    word updates e.1 = some (some e.2) ∨ word updates e.1 = none ∧ e ∈ top better n before
  removed : ∀ e ∈ top better n before, after.get? e.1 = none → word updates e.1 = some none
  honest : ∀ price quantity, word updates price = some (some quantity) → after.get? price = some quantity

/-- The announcement that says what it must and nothing else. -/
def announcement [DecidableEq ν] (before after : Dict κ ν) : List (Update κ ν) :=
  ((top better n after).filter fun e => e ∉ top better n before).map (fun e => (e.1, some e.2)) ++
  ((top better n before).filter fun e => (after.get? e.1).isNone).map fun e => (e.1, none)

section

variable {better n}

theorem get?_change (book : Dict κ ν) (updates : List (Update κ ν)) (price : κ) :
    (updates.foldl change book).get? price = (word updates price).getD (book.get? price) := by
  induction updates using List.reverseRecOn with
  | nil => rfl
  | append_singleton before update ih =>
    have last : word (before ++ [update]) price =
        (if update.1 = price then some update.2 else none).or (word before price) := by
      refine (EventLog.latest_append before [update] price).trans ?_
      simp [EventLog.latest, EventLog.about, word]
    rw [List.foldl_append, List.foldl_cons, List.foldl_nil, last]
    obtain ⟨changed, quantity⟩ := update
    by_cases same : changed = price
    · cases quantity <;> simp [change, same]
    · cases quantity <;> simp [change, same, ih]

omit [DecidableEq κ] in
theorem ranked_perm (book : Dict κ ν) : (ranked better book).Perm book.entries := List.mergeSort_perm _ _

omit [DecidableEq κ] in
theorem ranked_sorted (ranks : Ranks better) (book : Dict κ ν) :
    ((ranked better book).map Prod.fst).Pairwise fun a b => better a b = true :=
  List.pairwise_map.mpr (List.pairwise_mergeSort (fun a b c => ranks.trans a.1 b.1 c.1)
    (fun a b => ranks.total a.1 b.1) _)

omit [DecidableEq κ] in
theorem ranked_distinct (book : Dict κ ν) : ((ranked better book).map Prod.fst).Nodup :=
  ((ranked_perm book).map _).nodup_iff.mpr book.distinct

theorem mem_top {book : Dict κ ν} {e : κ × ν} (member : e ∈ top better n book) : book.get? e.1 = some e.2 :=
  Dict.mem_entries.mp ((ranked_perm book).subset (List.mem_of_mem_take member))

/-- A sublist that has all the first elements of a list starts with them. -/
theorem take_of_sublist {α : Type w} {short long : List α} (sub : short.Sublist long) (distinct : long.Nodup)
    (n : ℕ) (kept : ∀ a ∈ long.take n, a ∈ short) : short.take n = long.take n := by
  induction sub generalizing n with
  | slnil => rfl
  | @cons short long a sub ih =>
    cases n with
    | zero => rfl
    | succ n =>
      have inside : a ∈ short := kept a List.mem_cons_self
      exact absurd (sub.subset inside) (List.nodup_cons.mp distinct).1
  | @cons_cons short long a sub ih =>
    cases n with
    | zero => rfl
    | succ n =>
      obtain ⟨fresh, distinct⟩ := List.nodup_cons.mp distinct
      rw [List.take_succ_cons, List.take_succ_cons]
      refine congrArg _ (ih distinct n fun b member => ?_)
      rcases List.mem_cons.mp (kept b (List.mem_cons_of_mem _ member)) with rfl | inside
      · exact absurd (List.mem_of_mem_take member) fresh
      · exact inside

omit [DecidableEq κ] in
/-- Levels of the same prices that have one quantity for each price are the same levels. -/
theorem levels_ext {first second : List (κ × ν)} (prices : first.map Prod.fst = second.map Prod.fst)
    (agree : ∀ e ∈ first, ∀ f ∈ second, e.1 = f.1 → e.2 = f.2) : first = second := by
  induction first generalizing second with
  | nil =>
    cases second with
    | nil => rfl
    | cons f rest => cases prices
  | cons e rest ih =>
    cases second with
    | nil => cases prices
    | cons f rest' =>
      obtain ⟨price, prices⟩ := List.cons.inj prices
      have same : e = f := Prod.ext price (agree e List.mem_cons_self f List.mem_cons_self price)
      rw [same, ih prices fun a inside b inside' =>
        agree a (List.mem_cons_of_mem _ inside) b (List.mem_cons_of_mem _ inside')]

/-- A book that lies between the best levels of another and all of its prices has the same best levels. -/
theorem top_between (ranks : Ranks better) {part whole : Dict κ ν}
    (kept : ∀ e ∈ top better n whole, part.get? e.1 = some e.2)
    (within : ∀ price quantity, part.get? price = some quantity → whole.get? price ≠ none) :
    top better n part = top better n whole := by
  have prices : (ranked better part).map Prod.fst ⊆ (ranked better whole).map Prod.fst := by
    intro price member
    obtain ⟨e, inside, rfl⟩ := List.mem_map.mp member
    obtain ⟨quantity, found⟩ := Option.ne_none_iff_exists'.mp
      (within e.1 e.2 (Dict.mem_entries.mp ((ranked_perm part).subset inside)))
    exact List.mem_map.mpr ⟨(e.1, quantity), (ranked_perm whole).symm.subset (Dict.mem_entries.mpr found), rfl⟩
  have sub : ((ranked better part).map Prod.fst).Sublist ((ranked better whole).map Prod.fst) :=
    haveI : Std.Antisymm fun a b => better a b = true := ⟨ranks.antisymm⟩
    List.sublist_of_subperm_of_pairwise (List.subperm_of_subset (ranked_distinct part) prices)
      (ranked_sorted ranks part) (ranked_sorted ranks whole)
  have first : ((ranked better part).map Prod.fst).take n = ((ranked better whole).map Prod.fst).take n := by
    refine take_of_sublist sub (ranked_distinct whole) n fun price member => ?_
    rw [← List.map_take] at member
    obtain ⟨e, inside, rfl⟩ := List.mem_map.mp member
    exact List.mem_map.mpr ⟨e, (ranked_perm part).symm.subset (Dict.mem_entries.mpr (kept e inside)), rfl⟩
  rw [← List.map_take, ← List.map_take] at first
  refine levels_ext first fun e inside f inside' same => ?_
  have held := kept f inside'
  rw [← same, mem_top inside] at held
  exact Option.some.inj held

/-- The reader that had the best levels has them again after the announcement. -/
theorem top_announced (ranks : Ranks better) {before after mirror : Dict κ ν} {updates : List (Update κ ν)}
    (announces : Announces better n before after updates) (mirrors : mirror.entries = top better n before) :
    top better n (updates.foldl change mirror) = top better n after := by
  have mirrored (price : κ) (quantity : ν) : mirror.get? price = some quantity ↔ (price, quantity) ∈ top better n before := by
    rw [← mirrors, Dict.mem_entries]
  refine top_between ranks (fun e inside => ?_) fun price quantity found => ?_
  · rw [get?_change]
    rcases announces.placed e inside with said | ⟨unsaid, held⟩
    · rw [said]
      rfl
    · rw [unsaid]
      exact (mirrored e.1 e.2).mpr held
  · rw [get?_change] at found
    intro gone
    cases said : word updates price with
    | none =>
      rw [said] at found
      have removed := announces.removed _ ((mirrored price quantity).mp found) gone
      rw [said] at removed
      cases removed
    | some last =>
      rw [said] at found
      obtain rfl : last = some quantity := found
      rw [announces.honest price quantity said] at gone
      cases gone

theorem mem_announcement [DecidableEq ν] {before after : Dict κ ν} {price : κ} {quantity : Option ν} :
    (price, quantity) ∈ announcement better n before after ↔
      (∃ q, quantity = some q ∧ (price, q) ∈ top better n after ∧ (price, q) ∉ top better n before) ∨
      (quantity = none ∧ after.get? price = none ∧ ∃ q, (price, q) ∈ top better n before) := by
  unfold announcement
  simp only [List.mem_append, List.mem_map, List.mem_filter, decide_eq_true_eq, Option.isNone_iff_eq_none,
    Prod.mk.injEq, Prod.exists]
  constructor
  · rintro (⟨p, q, ⟨placed, moved⟩, rfl, rfl⟩ | ⟨p, q, ⟨held, gone⟩, rfl, rfl⟩)
    · exact .inl ⟨q, rfl, placed, moved⟩
    · exact .inr ⟨rfl, gone, q, held⟩
  · rintro (⟨q, rfl, placed, moved⟩ | ⟨rfl, gone, q, held⟩)
    · exact .inl ⟨price, q, ⟨placed, moved⟩, rfl, rfl⟩
    · exact .inr ⟨price, q, ⟨held, gone⟩, rfl, rfl⟩

/-- Every change has an announcement. -/
theorem announcement_announces [DecidableEq ν] (before after : Dict κ ν) :
    Announces better n before after (announcement better n before after) := by
  have said {price : κ} {quantity : Option ν}
      (found : word (announcement better n before after) price = some quantity) :
      (price, quantity) ∈ announcement better n before after := by
    obtain ⟨update, member, same⟩ := EventLog.latest_mem found
    rw [← Option.some.inj same]
    exact member
  have speaks {price : κ} {quantity : Option ν} (member : (price, quantity) ∈ announcement better n before after)
      (only : ∀ other, (price, other) ∈ announcement better n before after → other = quantity) :
      word (announcement better n before after) price = some quantity := by
    refine EventLog.latest_of_agree (fun update inside other about => ?_) member (EventLog.about_eq_some.mpr rfl)
    rw [Option.some.inj (EventLog.about_eq_some.mp about)] at inside
    exact only other inside
  refine ⟨fun e placed => ?_, fun e held gone => ?_, fun price quantity found => ?_⟩
  · by_cases held : e ∈ top better n before
    · right
      cases found : word (announcement better n before after) e.1 with
      | none => exact ⟨rfl, held⟩
      | some quantity =>
        rcases mem_announcement.mp (said found) with ⟨q, -, placed', moved⟩ | ⟨-, gone, -⟩
        · obtain rfl : e.2 = q := Option.some.inj ((mem_top placed).symm.trans (mem_top placed'))
          exact absurd held moved
        · rw [mem_top placed] at gone
          cases gone
    · left
      refine speaks (mem_announcement.mpr (.inl ⟨e.2, rfl, placed, held⟩)) fun other inside => ?_
      rcases mem_announcement.mp inside with ⟨q, rfl, placed', -⟩ | ⟨-, gone, -⟩
      · exact ((mem_top placed').symm.trans (mem_top placed))
      · rw [mem_top placed] at gone
        cases gone
  · refine speaks (mem_announcement.mpr (.inr ⟨rfl, gone, e.2, held⟩)) fun other inside => ?_
    rcases mem_announcement.mp inside with ⟨q, -, placed, -⟩ | ⟨none_, -, -⟩
    · have present := mem_top placed
      rw [gone] at present
      cases present
    · exact none_
  · rcases mem_announcement.mp (said found) with ⟨q, same, placed, -⟩ | ⟨none_, -, -⟩
    · obtain rfl := Option.some.inj same
      exact mem_top placed
    · cases none_

end

end TopLevels
