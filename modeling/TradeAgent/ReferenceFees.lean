import TradeAgent.Library.Grouping
import TradeAgent.ReferenceExecution

/-! The reference fee totals: rounded up by trade, by account, rule and day, or by account and day, with exact
rationals. -/
namespace TradeAgent.Reference

open Grouping Rounding

structure Charge where
  account : String
  rule : String
  /-- A day. -/
  day : ℤ
  amount : ℚ
  deriving DecidableEq

inductive RoundingScope where
  | perTrade | accountRuleDay | accountDay
  deriving DecidableEq, Repr

def cent : ℚ := 1 / 100

def negativeFee : Fault := ⟨"negative fee"⟩

def roundFeeUp (amount : ℚ) : Except Fault ℚ :=
  if amount < 0 then .error negativeFee else .ok (quantize .ceiling cent amount)

def Charge.key (scope : RoundingScope) (charge : Charge) : String × String × ℤ :=
  (charge.account, if scope = .accountDay then "" else charge.rule, charge.day)

def addCharge (scope : RoundingScope) (totals : Dict (String × String × ℤ) ℚ) (charge : Charge) :
    Except Fault (Dict (String × String × ℤ) ℚ) :=
  if charge.amount < 0 then .error negativeFee
  else do
    let amount ← if scope = .perTrade then roundFeeUp charge.amount else .ok charge.amount
    return totals.set (charge.key scope) (totals.getD (charge.key scope) 0 + amount)

def addTotal (result : Dict String ℚ) (total : (String × String × ℤ) × ℚ) : Except Fault (Dict String ℚ) := do
  let amount ← roundFeeUp total.2
  return result.set total.1.1 (result.getD total.1.1 0 + amount)

def referenceFeeTotals (charges : List Charge) (scope : RoundingScope) : Except Fault (Dict String ℚ) := do
  let totals ← charges.foldlM (addCharge scope) .empty
  totals.entries.foldlM addTotal .empty

/-! ## What the totals are -/

/-- What a charge adds to its total. -/
def Charge.added (scope : RoundingScope) (charge : Charge) : ℚ :=
  if scope = .perTrade then quantize .ceiling cent charge.amount else charge.amount

/-- The fee of an account: its totals, each rounded up. -/
def fee (scope : RoundingScope) (charges : List Charge) (account : String) : ℚ :=
  ∑ k ∈ groups (Charge.key scope) charges with k.1 = account,
    quantize .ceiling cent (sumOf (Charge.key scope) (Charge.added scope) charges k)

section totals

variable {scope : RoundingScope} {charges charges' : List Charge}

theorem cent_pos : 0 < cent := by
  unfold cent
  norm_num

theorem roundFeeUp_of_nonneg {amount : ℚ} (nonneg : 0 ≤ amount) :
    roundFeeUp amount = .ok (quantize .ceiling cent amount) := if_neg (not_lt.mpr nonneg)

theorem added_nonneg {charge : Charge} (nonneg : 0 ≤ charge.amount) : 0 ≤ charge.added scope := by
  unfold Charge.added
  split
  · exact quantize_nonneg .ceiling cent_pos.le nonneg
  · exact nonneg

theorem addCharge_of_nonneg {charge : Charge} (nonneg : 0 ≤ charge.amount) (totals : Dict (String × String × ℤ) ℚ) :
    addCharge scope totals charge =
      .ok (totals.set (charge.key scope) (totals.getD (charge.key scope) 0 + charge.added scope)) := by
  unfold addCharge Charge.added
  rw [if_neg (not_lt.mpr nonneg)]
  by_cases trade : scope = .perTrade
  · rw [if_pos trade, if_pos trade, roundFeeUp_of_nonneg nonneg]
    rfl
  · rw [if_neg trade, if_neg trade]
    rfl

/-- A negative amount anywhere refuses the list. -/
theorem totals_refused (negative : ∃ charge ∈ charges, charge.amount < 0) (scope : RoundingScope) :
    referenceFeeTotals charges scope = .error negativeFee := by
  have refused : ∀ totals, charges.foldlM (addCharge scope) totals = .error negativeFee := by
    induction charges with
    | nil => exact absurd negative (by simp)
    | cons first rest ih =>
      intro totals
      rw [List.foldlM_cons]
      by_cases low : first.amount < 0
      · rw [addCharge, if_pos low]
        rfl
      · rw [addCharge_of_nonneg (not_lt.mp low)]
        refine ih ?_ _
        obtain ⟨charge, member, negative⟩ := negative
        rcases List.mem_cons.mp member with rfl | later
        · exact absurd negative low
        · exact ⟨charge, later, negative⟩
  unfold referenceFeeTotals
  rw [refused]
  rfl

/-- The totals of a list without negative amounts. -/
def totalsOf (scope : RoundingScope) (charges : List Charge) : Dict (String × String × ℤ) ℚ :=
  accumulate (Charge.key scope) (Charge.added scope) charges .empty

theorem get?_totalsOf (scope : RoundingScope) (charges : List Charge) (k : String × String × ℤ) :
    (totalsOf scope charges).get? k =
      if k ∈ groups (Charge.key scope) charges then some (sumOf (Charge.key scope) (Charge.added scope) charges k)
      else none := by
  rw [totalsOf, get?_accumulate]
  congr 1
  rw [Dict.getD, Dict.get?_empty, Option.getD_none, zero_add]

theorem totalsOf_keys (scope : RoundingScope) (charges : List Charge) :
    (totalsOf scope charges).keys.toFinset = groups (Charge.key scope) charges := by
  ext k
  rw [List.mem_toFinset, ← not_iff_not, ← Dict.get?_none_iff, get?_totalsOf]
  by_cases member : k ∈ groups (Charge.key scope) charges
  · simp [member]
  · simp [member]

theorem totalsOf_nonneg (nonneg : ∀ charge ∈ charges, 0 ≤ charge.amount) {entry : (String × String × ℤ) × ℚ}
    (member : entry ∈ (totalsOf scope charges).entries) : 0 ≤ entry.2 := by
  have value := get?_totalsOf scope charges entry.1
  rw [Dict.mem_entries.mp member] at value
  split at value
  · rw [Option.some.inj value]
    refine List.sum_nonneg fun amount among => ?_
    obtain ⟨charge, charge_, rfl⟩ := List.mem_map.mp among
    exact added_nonneg (nonneg charge (List.mem_of_mem_filter charge_))
  · cases value

/-- The totals have the accounts of the charges. -/
theorem mem_accounts {account : String} :
    account ∈ groups (fun e : (String × String × ℤ) × ℚ => e.1.1) (totalsOf scope charges).entries ↔
      account ∈ charges.map Charge.account := by
  rw [mem_groups, List.mem_map]
  constructor
  · rintro ⟨entry, member, rfl⟩
    have key : entry.1 ∈ (totalsOf scope charges).keys.toFinset := List.mem_toFinset.mpr (List.mem_map_of_mem member)
    rw [totalsOf_keys] at key
    obtain ⟨charge, charge_, same⟩ := mem_groups.mp key
    exact ⟨charge, charge_, congrArg Prod.fst same⟩
  · rintro ⟨charge, charge_, rfl⟩
    have key : charge.key scope ∈ groups (Charge.key scope) charges := mem_groups.mpr ⟨charge, charge_, rfl⟩
    rw [← totalsOf_keys, List.mem_toFinset] at key
    obtain ⟨entry, member, same⟩ := List.mem_map.mp key
    exact ⟨entry, member, congrArg Prod.fst same⟩

/-- Without a negative amount every account that is charged has its fee. -/
theorem totals_spec (nonneg : ∀ charge ∈ charges, 0 ≤ charge.amount) (scope : RoundingScope) :
    ∃ result, referenceFeeTotals charges scope = .ok result ∧ ∀ account, result.get? account =
      if account ∈ charges.map Charge.account then some (fee scope charges account) else none := by
  have first : charges.foldlM (addCharge scope) .empty = .ok (totalsOf scope charges) :=
    foldlM_ok (fun charge member totals => addCharge_of_nonneg (nonneg charge member) totals) _
  have second : (totalsOf scope charges).entries.foldlM addTotal .empty = .ok
      (accumulate (fun e => e.1.1) (fun e => quantize .ceiling cent e.2) (totalsOf scope charges).entries .empty) := by
    refine foldlM_ok (fun entry member result => ?_) _
    rw [addTotal, roundFeeUp_of_nonneg (totalsOf_nonneg nonneg member)]
    rfl
  refine ⟨accumulate (fun e => e.1.1) (fun e => quantize .ceiling cent e.2) (totalsOf scope charges).entries .empty,
    ?_, fun account => ?_⟩
  · unfold referenceFeeTotals
    rw [first]
    exact second
  · rw [get?_accumulate, Dict.getD, Dict.get?_empty, Option.getD_none, zero_add]
    refine if_congr mem_accounts (congrArg some ?_) rfl
    unfold fee sumOf
    rw [sum_entries (totalsOf scope charges) (quantize .ceiling cent) fun k => k.1 = account, totalsOf_keys]
    refine Finset.sum_congr rfl fun k member => ?_
    rw [Dict.getD, get?_totalsOf, if_pos (Finset.mem_filter.mp member).1]
    rfl

end totals

/-! ## Order and aggregation -/

section order

variable {charges charges' : List Charge} {account : String}

theorem fee_perm (perm : charges.Perm charges') (scope : RoundingScope) (account : String) :
    fee scope charges account = fee scope charges' account := by
  unfold fee
  rw [groups_perm perm]
  exact Finset.sum_congr rfl fun k _ => congrArg _ (sumOf_perm perm _ _ k)

theorem cent_subadditive : Subadditive (quantize .ceiling cent) where
  zero := quantize_zero _ _
  add := quantize_ceiling_add_le cent_pos.le

/-- Once per account and day is at most once per account, rule and day. -/
theorem fee_day_le_rule (charges : List Charge) (account : String) :
    fee .accountDay charges account ≤ fee .accountRuleDay charges account :=
  cent_subadditive.coarse (Charge.key .accountRuleDay) (fun k => (k.1, "", k.2.2)) Charge.amount charges
    fun k => k.1 = account

/-- Cents add up to cents. -/
theorem sum_cents (l : List Charge) :
    quantize .ceiling cent (l.map (Charge.added .perTrade)).sum = (l.map (Charge.added .perTrade)).sum := by
  have whole : ∃ n : ℤ, (l.map (Charge.added .perTrade)).sum = n * cent := by
    induction l with
    | nil => exact ⟨0, by simp⟩
    | cons charge rest ih =>
      obtain ⟨n, sum⟩ := ih
      refine ⟨toIntegral .ceiling (charge.amount / cent) + n, ?_⟩
      rw [List.map_cons, List.sum_cons, sum, Int.cast_add, add_mul]
      rfl
  obtain ⟨n, sum⟩ := whole
  rw [sum]
  exact quantize_multiple .ceiling cent_pos n

/-- Once per account, rule and day is at most once per trade. -/
theorem fee_rule_le_trade (charges : List Charge) (account : String) :
    fee .accountRuleDay charges account ≤ fee .perTrade charges account := by
  refine Finset.sum_le_sum fun k _ => ?_
  have cents : quantize .ceiling cent (sumOf (Charge.key .perTrade) (Charge.added .perTrade) charges k) =
      sumOf (Charge.key .perTrade) (Charge.added .perTrade) charges k := sum_cents _
  rw [cents]
  exact cent_subadditive.members (Charge.key .accountRuleDay) Charge.amount charges k

/-- The totals do not depend on the order of the charges. For each account, the fee rounded once a day is at most that
rounded by rule and day, and this at most that rounded by trade; a negative amount refuses them all. -/
theorem fee_totals_ordered (charges : List Charge) :
    (∀ scope charges', charges.Perm charges' →
      referenceFeeTotals charges scope = .error negativeFee ∧ referenceFeeTotals charges' scope = .error negativeFee ∨
      ∃ result result', referenceFeeTotals charges scope = .ok result ∧
        referenceFeeTotals charges' scope = .ok result' ∧ result.Same result') ∧
    ((∃ charge ∈ charges, charge.amount < 0) → ∀ scope, referenceFeeTotals charges scope = .error negativeFee) ∧
    ((∀ charge ∈ charges, 0 ≤ charge.amount) → ∃ byDay byRule byTrade,
      referenceFeeTotals charges .accountDay = .ok byDay ∧ referenceFeeTotals charges .accountRuleDay = .ok byRule ∧
      referenceFeeTotals charges .perTrade = .ok byTrade ∧
      ∀ charge ∈ charges, ∃ day ∈ byDay.get? charge.account, ∃ rule ∈ byRule.get? charge.account,
        ∃ trade ∈ byTrade.get? charge.account, day ≤ rule ∧ rule ≤ trade) := by
  refine ⟨fun scope charges' perm => ?_, fun negative scope => totals_refused negative scope, fun nonneg => ?_⟩
  · by_cases negative : ∃ charge ∈ charges, charge.amount < 0
    · refine .inl ⟨totals_refused negative scope, totals_refused ?_ scope⟩
      obtain ⟨charge, member, low⟩ := negative
      exact ⟨charge, perm.mem_iff.mp member, low⟩
    · have nonneg : ∀ charge ∈ charges, 0 ≤ charge.amount :=
        fun charge member => not_lt.mp fun low => negative ⟨charge, member, low⟩
      obtain ⟨result, total, known⟩ := totals_spec nonneg scope
      obtain ⟨result', total', known'⟩ := totals_spec
        (fun charge member => nonneg charge (perm.mem_iff.mpr member)) scope
      refine .inr ⟨result, result', total, total', Dict.same_of_get? fun account => ?_⟩
      rw [known, known', fee_perm perm]
      exact if_congr (perm.map _).mem_iff rfl rfl
  · obtain ⟨byDay, day, dayKnown⟩ := totals_spec nonneg .accountDay
    obtain ⟨byRule, rule, ruleKnown⟩ := totals_spec nonneg .accountRuleDay
    obtain ⟨byTrade, trade, tradeKnown⟩ := totals_spec nonneg .perTrade
    refine ⟨byDay, byRule, byTrade, day, rule, trade, fun charge member => ?_⟩
    have charged : charge.account ∈ charges.map Charge.account := List.mem_map_of_mem member
    rw [dayKnown, ruleKnown, tradeKnown, if_pos charged, if_pos charged, if_pos charged]
    exact ⟨_, rfl, _, rfl, _, rfl, fee_day_le_rule charges _, fee_rule_le_trade charges _⟩

end order

def smallCharge (account : String) : Charge := ⟨account, "sec", 20549, 1 / 1000⟩

example : ((referenceFeeTotals [smallCharge "A", smallCharge "A", smallCharge "B"] .perTrade).toOption.map Dict.entries,
    (referenceFeeTotals [smallCharge "A", smallCharge "A", smallCharge "B"] .accountRuleDay).toOption.map Dict.entries) =
    (some [("A", 1 / 50), ("B", 1 / 100)], some [("A", 1 / 100), ("B", 1 / 100)]) := by
  decide +kernel

end TradeAgent.Reference
