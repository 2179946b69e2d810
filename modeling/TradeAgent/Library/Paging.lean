import Mathlib.Data.List.Basic

/-! Paging through an ordered listing by the last row of each page. The listing may gain rows between
two pages, at any place, but loses none and keeps the order of those it has. -/
namespace TradeAgent.Paging

variable {ι : Type*} [DecidableEq ι]

/-- What follows a row of a listing; everything, where there is no row to follow. -/
def beyond (listing : List ι) : Option ι → List ι
  | none => listing
  | some token => (listing.dropWhile (· ≠ token)).tail

@[simp] theorem beyond_none (listing : List ι) : beyond listing none = listing := rfl

theorem beyond_sublist (listing : List ι) (token : Option ι) : (beyond listing token).Sublist listing := by
  cases token with
  | none => exact .refl _
  | some token => exact (List.tail_sublist _).trans (List.dropWhile_sublist _)

/-- A row is beyond another if the listing has them in this order. -/
theorem mem_beyond {listing : List ι} {token row : ι} :
    row ∈ beyond listing (some token) ↔ [token, row].Sublist listing := by
  induction listing with
  | nil => simp [beyond]
  | cons first rest ih =>
    unfold beyond at ih ⊢
    dsimp only at ih ⊢
    by_cases same : first = token
    · subst same
      simp
    · have apart : token ≠ first := fun equal => same equal.symm
      rw [List.dropWhile_cons, if_pos (by simpa using same), ih]
      constructor
      · exact fun inside => inside.cons first
      · intro inside
        cases inside with
        | cons _ inside => exact inside
        | cons_cons _ _ => exact absurd rfl apart

/-- What is beyond a row stays so while the listing grows. -/
theorem beyond_grows {listing later : List ι} (grows : listing.Sublist later) {token : Option ι} {row : ι}
    (member : row ∈ beyond listing token) : row ∈ beyond later token := by
  cases token with
  | none => exact grows.subset member
  | some token => exact mem_beyond.mpr ((mem_beyond.mp member).trans grows)

/-- A page from the front of what is beyond a token: each row is on it or beyond its last one. -/
theorem page_or_beyond {listing page : List ι} {token : Option ι} {last row : ι}
    (front : page.IsPrefix (beyond listing token)) (ends : page.getLast? = some last)
    (member : row ∈ beyond listing token) : row ∈ page ∨ row ∈ beyond listing (some last) := by
  obtain ⟨rest, whole⟩ := front
  rw [← whole] at member
  refine (List.mem_append.mp member).imp_right fun after => mem_beyond.mpr ?_
  have pair : [last, row].Sublist (page ++ rest) :=
    .append (List.singleton_sublist.mpr (List.mem_of_getLast? ends)) (List.singleton_sublist.mpr after)
  exact pair.trans (whole ▸ beyond_sublist listing token)

end TradeAgent.Paging
