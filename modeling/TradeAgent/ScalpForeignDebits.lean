import Mathlib.Data.List.Perm.Subperm
import Mathlib.Algebra.Order.BigOperators.Group.List
import TradeAgent.ScalpRefresh

/-! The foreign activity of an account is accounted for once. Each pass compares what it sees with
the saved evidence; its credits and debits make up the difference, however the activities are
spread over the passes. -/
namespace TradeAgent.Scalp

/-- What one activity adds to the totals of its symbol. -/
def Activity.boughtQuantity (row : Activity) : ℚ :=
  if row.kind = .fill ∧ 0 < row.quantity ∧ row.side = some .buy then row.quantity else 0

def Activity.soldQuantity (row : Activity) : ℚ :=
  if row.kind = .fill ∧ 0 < row.quantity ∧ row.side = some .sell then row.quantity else 0

def Activity.feeQuantity (row : Activity) : ℚ :=
  if row.kind.isFee ∧ row.quantity < 0 ∧ row.netAmount = 0 ∧ row.executed ∧ row.dollars then
    -row.quantity
  else 0

/-- The foreign activities that a pass accounts under a symbol. -/
def visible (r : Reading) (symbol : String) : List Activity :=
  (foreignActivities r).filter fun row => accountedSymbol r row = some symbol

/-- The evidence of a symbol before a pass: the saved one, or what an earlier version had accounted
for of the activities that the pass sees. -/
def previousEvidence (r : Reading) (symbol : String) : Evidence :=
  let legacy := legacyTotals r.account (visible r symbol)
  (r.account.foreignEvidence.get? symbol).getD
    { buys := legacy.buys, sells := legacy.sells, fees := legacy.fees }

def heldUnowned (account : AccountState) (symbol : String) : ℚ :=
  account.unownedPositions.getD symbol 0

def previousProvisional (r : Reading) (symbol : String) : ℚ :=
  let previous := previousEvidence r symbol
  previous.provisionalReduction.getD
    (positive (r.account.initialUnownedPositions.getD symbol 0 + previous.buys - previous.sells -
      previous.fees - heldUnowned r.account symbol))

theorem Activity.boughtQuantity_nonneg (row : Activity) : 0 ≤ row.boughtQuantity := by
  unfold Activity.boughtQuantity
  split
  next bought => exact bought.2.1.le
  next => exact le_rfl

theorem Activity.soldQuantity_nonneg (row : Activity) : 0 ≤ row.soldQuantity := by
  unfold Activity.soldQuantity
  split
  next sold => exact sold.2.1.le
  next => exact le_rfl

theorem Activity.feeQuantity_nonneg (row : Activity) : 0 ≤ row.feeQuantity := by
  unfold Activity.feeQuantity
  split
  next fee => linarith [fee.2.1]
  next => exact le_rfl

/-- An activity adds to one of the three totals at most. -/
theorem addTotals_eq (total : Totals) (row : Activity) :
    addTotals (fun row => |row.quantity|) total row = {
      buys := total.buys + row.boughtQuantity
      sells := total.sells + row.soldQuantity
      fees := total.fees + row.feeQuantity } := by
  unfold addTotals Activity.boughtQuantity Activity.soldQuantity Activity.feeQuantity
  by_cases bought : row.kind = .fill ∧ 0 < row.quantity ∧ row.side = some .buy
  · obtain ⟨fill, positive, buy⟩ := bought
    simp [fill, positive, buy, abs_of_pos positive, ActivityKind.isFee]
  · by_cases sold : row.kind = .fill ∧ 0 < row.quantity ∧ row.side = some .sell
    · obtain ⟨fill, positive, sell⟩ := sold
      simp [fill, positive, sell, abs_of_pos positive, ActivityKind.isFee]
    · rw [if_neg bought, if_neg sold, if_neg bought, if_neg sold]
      split
      next fee => simp [abs_of_neg fee.2.1]
      next => simp

theorem foreignTotals_eq (rows : List Activity) : foreignTotals rows = {
    buys := (rows.map Activity.boughtQuantity).sum
    sells := (rows.map Activity.soldQuantity).sum
    fees := (rows.map Activity.feeQuantity).sum } := by
  have general : ∀ total : Totals, rows.foldl (addTotals fun row => |row.quantity|) total = {
      buys := total.buys + (rows.map Activity.boughtQuantity).sum
      sells := total.sells + (rows.map Activity.soldQuantity).sum
      fees := total.fees + (rows.map Activity.feeQuantity).sum } := by
    induction rows with
    | nil => simp
    | cons row rest ih =>
      intro total
      rw [List.foldl_cons, addTotals_eq, ih]
      simp [add_assoc]
  exact (general {}).trans (by simp)

/-- How evidence, protected inventory and disposals account for a list of activities: the evidence
reaches what was seen, and whatever it grew by was credited or debited. -/
structure Accounted (rows : List Activity) (before after : Evidence) (provisional left held kept disposed : ℚ) :
    Prop where
  buys : after.buys = max before.buys (rows.map Activity.boughtQuantity).sum
  sells : after.sells = max before.sells (rows.map Activity.soldQuantity).sum
  fees : after.fees = max before.fees (rows.map Activity.feeQuantity).sum
  covered : provisional - left = min provisional (after.fees - before.fees)
  balance : kept - disposed = held + (after.buys - before.buys) -
    ((after.sells - before.sells) + (after.fees - before.fees) - (provisional - left))
  keptNonneg : 0 ≤ kept
  disposedNonneg : 0 ≤ disposed

theorem positive_sub (x y : ℚ) : positive (x - y) = max y x - y := by
  unfold positive
  rcases le_total x y with below | above
  · rw [max_eq_left (sub_nonpos.mpr below), max_eq_left below, sub_self]
  · rw [max_eq_right (sub_nonneg.mpr above), max_eq_right above]

theorem positive_sub_comm (x y : ℚ) : positive (x - y) - positive (y - x) = x - y := by
  unfold positive
  rcases le_total x y with below | above
  · rw [max_eq_left (sub_nonpos.mpr below), max_eq_right (sub_nonneg.mpr below)]
    ring
  · rw [max_eq_right (sub_nonneg.mpr above), max_eq_left (sub_nonpos.mpr above)]
    ring

theorem positive_exclusive (x y : ℚ) : positive (x - y) = 0 ∨ positive (y - x) = 0 := by
  unfold positive
  rcases le_total x y with below | above
  · exact .inl (max_eq_left (sub_nonpos.mpr below))
  · exact .inr (max_eq_left (sub_nonpos.mpr above))

/-- A debit's provisional reduction, which it always has. -/
def Debit.provisional (debit : Debit) : ℚ := debit.evidence.provisionalReduction.getD 0

theorem externalDebit_accounted (r : Reading) (symbol : String) :
    let debit := externalDebit r.account symbol (visible r symbol)
    Accounted (visible r symbol) (previousEvidence r symbol) debit.evidence
      (previousProvisional r symbol) debit.provisional (heldUnowned r.account symbol) debit.quantity
      debit.disposal ∧ (debit.quantity = 0 ∨ debit.disposal = 0) := by
  have totals := foreignTotals_eq (visible r symbol)
  refine ⟨?_, positive_exclusive _ _⟩
  constructor
  · show max (previousEvidence r symbol).buys (foreignTotals _).buys = _
    rw [totals]
  · show max (previousEvidence r symbol).sells (foreignTotals _).sells = _
    rw [totals]
  · show max (previousEvidence r symbol).fees (foreignTotals _).fees = _
    rw [totals]
  · show previousProvisional r symbol - (previousProvisional r symbol -
        min (previousProvisional r symbol)
          (positive ((foreignTotals _).fees - (previousEvidence r symbol).fees))) =
      min _ (max (previousEvidence r symbol).fees (foreignTotals _).fees - (previousEvidence r symbol).fees)
    rw [positive_sub, sub_sub_cancel]
  · show positive (_ - _) - positive (_ - _) = heldUnowned r.account symbol +
      (max (previousEvidence r symbol).buys (foreignTotals _).buys - (previousEvidence r symbol).buys) -
      (max (previousEvidence r symbol).sells (foreignTotals _).sells - (previousEvidence r symbol).sells +
        (max (previousEvidence r symbol).fees (foreignTotals _).fees - (previousEvidence r symbol).fees) -
        (previousProvisional r symbol - (previousProvisional r symbol -
        min (previousProvisional r symbol)
          (positive ((foreignTotals _).fees - (previousEvidence r symbol).fees)))))
    rw [positive_sub_comm, ← positive_sub, ← positive_sub, ← positive_sub, sub_sub_cancel]
    rfl
  · exact positive_nonneg _
  · exact positive_nonneg _

theorem debitSymbols_nodup (r : Reading) : (debitSymbols r).Nodup := List.nodup_dedup _

theorem externalInventoryDebits_get? (r : Reading) (symbol : String) :
    (externalInventoryDebits r).get? symbol =
      if symbol ∈ debitSymbols r then some (externalDebit r.account symbol (visible r symbol)) else none :=
  Dict.get?_ofKeys (debitSymbols_nodup r) _ symbol

/-- A pass over another state of the account. -/
def Reading.seeing (r : Reading) (account : AccountState) : Reading := { r with account }

/-- The account once a pass's debits are saved. -/
def AccountState.save (account : AccountState) (debits : Dict String Debit) : AccountState :=
  { account with
    unownedPositions := .ofList (debits.entries.map fun e => (e.1, e.2.quantity))
    foreignEvidence := .ofList (debits.entries.map fun e => (e.1, e.2.evidence)) }

def afterPass (account : AccountState) (r : Reading) : AccountState :=
  account.save (externalInventoryDebits (r.seeing account))

@[simp] theorem afterPass_capturedAt (account : AccountState) (r : Reading) :
    (afterPass account r).capturedAt = account.capturedAt := rfl

/-- What a pass sees depends on no other part of the account than its baseline. -/
theorem visible_seeing (r : Reading) {account other : AccountState}
    (same : other.capturedAt = account.capturedAt) (symbol : String) :
    visible (r.seeing other) symbol = visible (r.seeing account) symbol := by
  unfold visible foreignActivities accountedSymbol Reading.seeing
  simp only [same]

section saved

variable {account : AccountState} {r : Reading} {symbol : String}

theorem afterPass_held (member : symbol ∈ debitSymbols (r.seeing account)) :
    heldUnowned (afterPass account r) symbol =
      (externalDebit account symbol (visible (r.seeing account) symbol)).quantity := by
  unfold heldUnowned afterPass AccountState.save Dict.getD
  rw [Dict.get?_ofMap, externalInventoryDebits_get?, if_pos member]
  rfl

theorem afterPass_evidence (member : symbol ∈ debitSymbols (r.seeing account)) :
    (afterPass account r).foreignEvidence.get? symbol =
      some (externalDebit account symbol (visible (r.seeing account) symbol)).evidence := by
  unfold afterPass AccountState.save
  rw [Dict.get?_ofMap, externalInventoryDebits_get?, if_pos member]
  rfl

/-- The next pass starts from the evidence and the reduction that this one saved. -/
theorem afterPass_previous (member : symbol ∈ debitSymbols (r.seeing account)) (next : Reading) :
    previousEvidence (next.seeing (afterPass account r)) symbol =
        (externalDebit account symbol (visible (r.seeing account) symbol)).evidence ∧
      previousProvisional (next.seeing (afterPass account r)) symbol =
        (externalDebit account symbol (visible (r.seeing account) symbol)).provisional := by
  have evidence : previousEvidence (next.seeing (afterPass account r)) symbol =
      (externalDebit account symbol (visible (r.seeing account) symbol)).evidence := by
    show ((afterPass account r).foreignEvidence.get? symbol).getD _ = _
    rw [afterPass_evidence member]
    rfl
  refine ⟨evidence, ?_⟩
  unfold previousProvisional
  rw [evidence]
  rfl

/-- Once accounted for, a symbol stays so. -/
theorem afterPass_member (member : symbol ∈ debitSymbols (r.seeing account)) (next : Reading) :
    symbol ∈ debitSymbols (next.seeing (afterPass account r)) := by
  have stored : symbol ∈ (afterPass account r).foreignEvidence.keys := by
    by_contra absent
    have none_ := Dict.get?_none_iff.mpr absent
    rw [afterPass_evidence member] at none_
    cases none_
  exact List.mem_dedup.mpr (List.mem_append_right _ stored)

theorem debitSymbols_again : symbol ∈ debitSymbols (r.seeing (afterPass account r)) ↔
    symbol ∈ debitSymbols (r.seeing account) := by
  refine ⟨fun member => ?_, fun member => afterPass_member member r⟩
  have keys : ∀ {β : Type} (f : Debit → β), symbol ∈ (Dict.ofList
      ((externalInventoryDebits (r.seeing account)).entries.map fun e => (e.1, f e.2))).keys →
      symbol ∈ debitSymbols (r.seeing account) := by
    intro β f stored
    by_contra absent
    apply Dict.get?_none_iff.mp _ stored
    rw [Dict.get?_ofMap, externalInventoryDebits_get?, if_neg absent]
    rfl
  rcases List.mem_append.mp (List.mem_dedup.mp member) with earlier | evidence
  · rcases List.mem_append.mp earlier with held | seen
    · exact keys _ held
    · exact List.mem_dedup.mpr (List.mem_append_left _ (List.mem_append_right _ seen))
  · exact keys _ evidence

end saved

section accounted

variable {rows later : List Activity} {before middle after : Evidence}
variable {provisional left rest held kept final disposed further : ℚ}

theorem Accounted.left_nonneg (first : Accounted rows before middle provisional left held kept disposed) :
    0 ≤ left := by
  have covered := first.covered
  have := min_le_left provisional (middle.fees - before.fees)
  linarith

/-- Two passes account for what the second one sees as one pass would. -/
theorem Accounted.compose (first : Accounted rows before middle provisional left held kept disposed)
    (second : Accounted later middle after left rest kept final further)
    (bought : (rows.map Activity.boughtQuantity).sum ≤ (later.map Activity.boughtQuantity).sum)
    (sold : (rows.map Activity.soldQuantity).sum ≤ (later.map Activity.soldQuantity).sum)
    (paid : (rows.map Activity.feeQuantity).sum ≤ (later.map Activity.feeQuantity).sum) :
    Accounted later before after provisional rest held final (disposed + further) where
  buys := by rw [second.buys, first.buys, max_assoc, max_eq_right bought]
  sells := by rw [second.sells, first.sells, max_assoc, max_eq_right sold]
  fees := by rw [second.fees, first.fees, max_assoc, max_eq_right paid]
  covered := by
    have firstGrown : 0 ≤ middle.fees - before.fees := by
      rw [first.fees, sub_nonneg]
      exact le_max_left _ _
    have secondGrown : 0 ≤ after.fees - middle.fees := by
      rw [second.fees, sub_nonneg]
      exact le_max_left _ _
    have firstCovered := first.covered
    have secondCovered := second.covered
    -- Once the reduction is used up, it covers nothing of what follows.
    rcases le_total provisional (middle.fees - before.fees) with spent | spared
    · rw [min_eq_left spent] at firstCovered
      have empty : left = 0 := by linarith
      rw [empty, min_eq_left secondGrown] at secondCovered
      rw [min_eq_left (by linarith)]
      linarith
    · rw [min_eq_right spared] at firstCovered
      have split : provisional - rest = (middle.fees - before.fees) + (left - rest) := by linarith
      have shift : after.fees - before.fees = (middle.fees - before.fees) + (after.fees - middle.fees) := by
        ring
      rw [split, shift, secondCovered, ← min_add_add_left]
      congr 1
      linarith
  balance := by
    have firstBalance := first.balance
    have secondBalance := second.balance
    linarith
  keptNonneg := second.keptNonneg
  disposedNonneg := add_nonneg first.disposedNonneg second.disposedNonneg

/-- A pass over what is accounted for already changes nothing. -/
theorem Accounted.again (first : Accounted rows before middle provisional left held kept disposed)
    (second : Accounted rows middle after left rest kept final further) (exclusive : final = 0 ∨ further = 0) :
    after.buys = middle.buys ∧ after.sells = middle.sells ∧ after.fees = middle.fees ∧ rest = left ∧
      final = kept ∧ further = 0 := by
  have buys : after.buys = middle.buys := by
    rw [second.buys, first.buys, max_assoc, max_self]
  have sells : after.sells = middle.sells := by
    rw [second.sells, first.sells, max_assoc, max_self]
  have fees : after.fees = middle.fees := by
    rw [second.fees, first.fees, max_assoc, max_self]
  have spared : rest = left := by
    have covered := second.covered
    rw [fees, sub_self, min_eq_right first.left_nonneg] at covered
    linarith
  have balance := second.balance
  rw [buys, sells, fees, spared] at balance
  have keptNonneg := first.keptNonneg
  have furtherNonneg := second.disposedNonneg
  refine ⟨buys, sells, fees, spared, ?_⟩
  rcases exclusive with none_ | none_
  · rw [none_] at balance
    constructor <;> linarith
  · exact ⟨by linarith, none_⟩

/-- What the evidence grew by is the quantity of the activities that it had not seen. -/
theorem Accounted.fresh (first : Accounted rows before after provisional left held kept disposed)
    {seen fresh : List Activity} (split : (seen ++ fresh).Perm rows)
    (buys : before.buys = (seen.map Activity.boughtQuantity).sum)
    (sells : before.sells = (seen.map Activity.soldQuantity).sum)
    (fees : before.fees = (seen.map Activity.feeQuantity).sum) :
    after.buys - before.buys = (fresh.map Activity.boughtQuantity).sum ∧
      after.sells - before.sells = (fresh.map Activity.soldQuantity).sum ∧
      after.fees - before.fees = (fresh.map Activity.feeQuantity).sum := by
  have total : ∀ {amount : Activity → ℚ}, (∀ row, 0 ≤ amount row) →
      max (seen.map amount).sum (rows.map amount).sum - (seen.map amount).sum = (fresh.map amount).sum := by
    intro amount nonneg
    have sum : (rows.map amount).sum = (seen.map amount).sum + (fresh.map amount).sum := by
      rw [← (split.map amount).sum_eq, List.map_append, List.sum_append]
    have freshNonneg : 0 ≤ (fresh.map amount).sum := by
      apply List.sum_nonneg
      rintro x member
      obtain ⟨row, -, rfl⟩ := List.mem_map.mp member
      exact nonneg row
    rw [sum, max_eq_right (by linarith)]
    ring
  refine ⟨?_, ?_, ?_⟩
  · rw [first.buys, buys]
    exact total Activity.boughtQuantity_nonneg
  · rw [first.sells, sells]
    exact total Activity.soldQuantity_nonneg
  · rw [first.fees, fees]
    exact total Activity.feeQuantity_nonneg

end accounted

theorem subperm_sum_le {rows later : List Activity} (grown : rows.Subperm later) {amount : Activity → ℚ}
    (nonneg : ∀ row, 0 ≤ amount row) : (rows.map amount).sum ≤ (later.map amount).sum := by
  obtain ⟨part, perm, sublist⟩ := grown
  rw [← (perm.map amount).sum_eq]
  apply (sublist.map amount).sum_le_sum
  intro x member
  obtain ⟨row, -, rfl⟩ := List.mem_map.mp member
  exact nonneg row

/-- The account after a sequence of passes, and the disposal that they charge to owned cycles. -/
def afterPasses (account : AccountState) (passes : List Reading) : AccountState :=
  passes.foldl afterPass account

theorem afterPasses_cons (account : AccountState) (r : Reading) (rest : List Reading) :
    afterPasses account (r :: rest) = afterPasses (afterPass account r) rest := rfl

def disposedBy (symbol : String) : AccountState → List Reading → ℚ
  | _, [] => 0
  | account, r :: rest =>
    (((externalInventoryDebits (r.seeing account)).get? symbol).map Debit.disposal).getD 0 +
      disposedBy symbol (afterPass account r) rest

/-- Activities of the symbol only become visible, one pass after another. -/
def Growing (account : AccountState) (symbol : String) (passes : List Reading) : Prop :=
  passes.Pairwise fun r later => (visible (r.seeing account) symbol).Subperm
    (visible (later.seeing account) symbol)

theorem Growing.after {account : AccountState} {symbol : String} {r : Reading} {passes : List Reading}
    (growing : Growing account symbol passes) : Growing (afterPass account r) symbol passes := by
  unfold Growing
  simp only [visible_seeing _ (afterPass_capturedAt account r)]
  exact growing

theorem afterPasses_accounted {account : AccountState} {symbol : String} {first : Reading}
    {rest : List Reading} (growing : Growing account symbol (first :: rest))
    (member : symbol ∈ debitSymbols (first.seeing account)) :
    ∃ evidence, (afterPasses account (first :: rest)).foreignEvidence.get? symbol = some evidence ∧
      Accounted (visible (((first :: rest).getLast (by simp)).seeing account) symbol)
        (previousEvidence (first.seeing account) symbol) evidence
        (previousProvisional (first.seeing account) symbol) (evidence.provisionalReduction.getD 0)
        (heldUnowned account symbol) (heldUnowned (afterPasses account (first :: rest)) symbol)
        (disposedBy symbol account (first :: rest)) := by
  have here := (externalDebit_accounted (first.seeing account) symbol).1
  have held := afterPass_held member
  have charged : (((externalInventoryDebits (first.seeing account)).get? symbol).map Debit.disposal).getD 0 =
      (externalDebit account symbol (visible (first.seeing account) symbol)).disposal := by
    rw [externalInventoryDebits_get?, if_pos member]
    rfl
  induction rest generalizing account first with
  | nil =>
    refine ⟨_, afterPass_evidence member, ?_⟩
    simp only [disposedBy, charged, add_zero]
    show Accounted _ _ _ _ _ _ (heldUnowned (afterPass account first) symbol) _
    rw [held]
    exact here
  | cons next rest ih =>
    obtain ⟨below, growing'⟩ := List.pairwise_cons.mp growing
    have member' := afterPass_member member next
    have later : Growing (afterPass account first) symbol (next :: rest) := Growing.after growing'
    obtain ⟨evidence, stored, others⟩ := ih later member'
      (externalDebit_accounted _ symbol).1 (afterPass_held member') (by
        rw [externalInventoryDebits_get?, if_pos member']
        rfl)
    rw [afterPasses_cons]
    refine ⟨evidence, stored, ?_⟩
    obtain ⟨previous, reduction⟩ := afterPass_previous member next
    rw [previous, reduction, held] at others
    rw [visible_seeing _ (afterPass_capturedAt account first)] at others
    have last := below _ (List.getLast_mem (by simp : next :: rest ≠ []))
    have composed := here.compose others (subperm_sum_le last Activity.boughtQuantity_nonneg)
      (subperm_sum_le last Activity.soldQuantity_nonneg)
      (subperm_sum_le last Activity.feeQuantity_nonneg)
    rw [disposedBy, charged]
    exact composed

/-- The debit of a pass that sees what was accounted for already. -/
structure Debit.Repeats (debit again : Debit) : Prop where
  quantity : again.quantity = debit.quantity
  buys : again.evidence.buys = debit.evidence.buys
  sells : again.evidence.sells = debit.evidence.sells
  fees : again.evidence.fees = debit.evidence.fees
  provisional : again.provisional = debit.provisional
  disposal : again.disposal = 0

theorem externalDebit_repeats {account : AccountState} {r : Reading} {symbol : String}
    (member : symbol ∈ debitSymbols (r.seeing account)) :
    (externalDebit account symbol (visible (r.seeing account) symbol)).Repeats
      (externalDebit (afterPass account r) symbol (visible (r.seeing (afterPass account r)) symbol)) := by
  have first := (externalDebit_accounted (r.seeing account) symbol).1
  obtain ⟨second, exclusive⟩ := externalDebit_accounted (r.seeing (afterPass account r)) symbol
  obtain ⟨previous, reduction⟩ := afterPass_previous member r
  rw [previous, reduction, visible_seeing r (afterPass_capturedAt account r) symbol] at second
  rw [visible_seeing r (afterPass_capturedAt account r) symbol] at exclusive ⊢
  have held : heldUnowned (r.seeing (afterPass account r)).account symbol =
      (externalDebit account symbol (visible (r.seeing account) symbol)).quantity := afterPass_held member
  rw [held] at second
  obtain ⟨buys, sells, fees, provisional, quantity, disposal⟩ := first.again second exclusive
  exact ⟨quantity, buys, sells, fees, provisional, disposal⟩

theorem externalDebits_repeat (account : AccountState) (r : Reading) (symbol : String) :
    Option.Rel Debit.Repeats ((externalInventoryDebits (r.seeing account)).get? symbol)
      ((externalInventoryDebits (r.seeing (afterPass account r))).get? symbol) := by
  rw [externalInventoryDebits_get?, externalInventoryDebits_get?]
  by_cases member : symbol ∈ debitSymbols (r.seeing account)
  · rw [if_pos member, if_pos (debitSymbols_again.mpr member)]
    exact .some (externalDebit_repeats member)
  · rw [if_neg member, if_neg (mt debitSymbols_again.mp member)]
    exact .none

/-- Foreign activity is accounted for exactly once: a pass only adds to the evidence and balances what
it credits, debits and charges; repeating it does nothing; and over any passes that see more and more
activities, the protected quantity and the charges balance the activities that came to be seen. -/
theorem foreign_debits_once (account : AccountState) (r : Reading) :
    (∀ symbol debit, (externalInventoryDebits (r.seeing account)).get? symbol = some debit →
      (previousEvidence (r.seeing account) symbol).buys ≤ debit.evidence.buys ∧
      (previousEvidence (r.seeing account) symbol).sells ≤ debit.evidence.sells ∧
      (previousEvidence (r.seeing account) symbol).fees ≤ debit.evidence.fees ∧
      Accounted (visible (r.seeing account) symbol) (previousEvidence (r.seeing account) symbol)
        debit.evidence (previousProvisional (r.seeing account) symbol) debit.provisional
        (heldUnowned account symbol) debit.quantity debit.disposal ∧
      (debit.quantity = 0 ∨ debit.disposal = 0)) ∧
    (∀ symbol, Option.Rel Debit.Repeats ((externalInventoryDebits (r.seeing account)).get? symbol)
      ((externalInventoryDebits (r.seeing (afterPass account r))).get? symbol)) ∧
    ∀ rest symbol, Growing account symbol (r :: rest) → symbol ∈ debitSymbols (r.seeing account) →
      let last := (r :: rest).getLast (by simp)
      let before := previousEvidence (r.seeing account) symbol
      ∃ evidence, (afterPasses account (r :: rest)).foreignEvidence.get? symbol = some evidence ∧
        Accounted (visible (last.seeing account) symbol) before evidence
          (previousProvisional (r.seeing account) symbol) (evidence.provisionalReduction.getD 0)
          (heldUnowned account symbol) (heldUnowned (afterPasses account (r :: rest)) symbol)
          (disposedBy symbol account (r :: rest)) ∧
        ∀ seen fresh : List Activity, (seen ++ fresh).Perm (visible (last.seeing account) symbol) →
          before.buys = (seen.map Activity.boughtQuantity).sum →
          before.sells = (seen.map Activity.soldQuantity).sum →
          before.fees = (seen.map Activity.feeQuantity).sum →
          evidence.buys - before.buys = (fresh.map Activity.boughtQuantity).sum ∧
          evidence.sells - before.sells = (fresh.map Activity.soldQuantity).sum ∧
          evidence.fees - before.fees = (fresh.map Activity.feeQuantity).sum := by
  refine ⟨fun symbol debit found => ?_, externalDebits_repeat account r, ?_⟩
  · rw [externalInventoryDebits_get?] at found
    split at found
    next =>
      obtain rfl := Option.some.inj found
      obtain ⟨accounted, exclusive⟩ := externalDebit_accounted (r.seeing account) symbol
      refine ⟨?_, ?_, ?_, accounted, exclusive⟩
      · exact accounted.buys ▸ le_max_left _ _
      · exact accounted.sells ▸ le_max_left _ _
      · exact accounted.fees ▸ le_max_left _ _
    next => cases found
  · intro rest symbol growing member last before
    obtain ⟨evidence, stored, accounted⟩ := afterPasses_accounted growing member
    exact ⟨evidence, stored, accounted, fun seen fresh split buys sells fees =>
      accounted.fresh split buys sells fees⟩

end TradeAgent.Scalp
