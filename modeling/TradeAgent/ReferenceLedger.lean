import TradeAgent.ReferenceExecution

/-! The reference ledger of one account, with exact rationals: long only, fully funded, every event applied once. -/
namespace TradeAgent.Reference

structure DividendReceivable where
  eventId : String
  symbol : String
  entitledQuantity : ℚ
  amount : ℚ
  /-- A day. -/
  payableOn : ℤ
  deriving DecidableEq

structure ReferenceLedger where
  accountId : String
  cash : ℚ
  positions : Dict String ℚ := .empty
  costBasis : Dict String ℚ := .empty
  receivables : List DividendReceivable := []
  appliedEvents : List String := []

inductive Operation where
  | trade (eventId symbol : String) (quantity rawPrice fee : ℚ) (priceBasis : String)
  | split (eventId symbol : String) (ratio : ℚ)
  | dividendEntitlement (eventId symbol : String) (perShare : ℚ) (payableOn : ℤ)
  | payDividend (eventId : String) (paidOn : ℤ)

namespace ReferenceLedger

variable (l : ReferenceLedger)

def position (symbol : String) : ℚ := l.positions.getD symbol 0

def basis (symbol : String) : ℚ := l.costBasis.getD symbol 0

def trade (eventId symbol : String) (quantity rawPrice fee : ℚ) (priceBasis : String) : Except Fault ReferenceLedger :=
  if eventId ∈ l.appliedEvents then .error ⟨"duplicate ledger event"⟩
  else if priceBasis ≠ "raw" ∨ rawPrice ≤ 0 ∨ fee < 0 ∨ quantity = 0 then
    .error ⟨"raw executable price and nonzero quantity required"⟩
  else
    let remaining := l.position symbol + quantity
    let cash := l.cash - quantity * rawPrice - fee
    if remaining < 0 ∨ cash < 0 then .error ⟨"long-only fully funded ledger"⟩
    else .ok { l with
      cash
      positions := l.positions.set symbol remaining
      costBasis := l.costBasis.set symbol (
        if 0 < quantity then l.basis symbol + quantity * rawPrice + fee
        else l.basis symbol * remaining / l.position symbol)
      appliedEvents := l.appliedEvents ++ [eventId] }

def split (eventId symbol : String) (ratio : ℚ) : Except Fault ReferenceLedger :=
  if ratio ≤ 0 ∨ eventId ∈ l.appliedEvents then .error ⟨"invalid or duplicate split"⟩
  else .ok { l with
    positions := l.positions.set symbol (l.position symbol * ratio)
    appliedEvents := l.appliedEvents ++ [eventId] }

def dividendEntitlement (eventId symbol : String) (perShare : ℚ) (payableOn : ℤ) : Except Fault ReferenceLedger :=
  if eventId ∈ l.appliedEvents ∨ perShare < 0 then .error ⟨"invalid or duplicate entitlement"⟩
  else
    let quantity := l.position symbol
    .ok { l with
      receivables := l.receivables ++ [⟨eventId, symbol, quantity, quantity * perShare, payableOn⟩]
      appliedEvents := l.appliedEvents ++ [eventId] }

def payDividend (eventId : String) (paidOn : ℤ) : Except Fault ReferenceLedger :=
  match l.receivables.find? fun item => item.eventId = eventId with
  | none => .error ⟨"missing receivable or premature payment"⟩
  | some receivable =>
    if paidOn < receivable.payableOn then .error ⟨"missing receivable or premature payment"⟩
    else .ok { l with
      cash := l.cash + receivable.amount
      receivables := l.receivables.filter fun item => item ≠ receivable }

/-- An open position without a mark. -/
def Unmarked (marks : Dict String ℚ) : Prop :=
  ∃ e ∈ l.positions.entries, e.2 ≠ 0 ∧ ∀ mark ∈ marks.get? e.1, mark ≤ 0

instance (marks : Dict String ℚ) : Decidable (l.Unmarked marks) := by
  unfold Unmarked
  infer_instance

def equity (marks : Dict String ℚ) (priceBasis : String) : Except Fault ℚ :=
  if priceBasis ≠ "raw" then .error ⟨"adjusted marks would mix bases/double count distributions"⟩
  else if l.Unmarked marks then .error ⟨"raw mark unavailable for open position"⟩
  else .ok (l.cash + l.positions.weigh (fun symbol quantity => quantity * marks.getD symbol 0) +
    (l.receivables.map DividendReceivable.amount).sum)

def apply : Operation → Except Fault ReferenceLedger
  | .trade eventId symbol quantity rawPrice fee priceBasis => l.trade eventId symbol quantity rawPrice fee priceBasis
  | .split eventId symbol ratio => l.split eventId symbol ratio
  | .dividendEntitlement eventId symbol perShare payableOn => l.dividendEntitlement eventId symbol perShare payableOn
  | .payDividend eventId paidOn => l.payDividend eventId paidOn

/-- The ledger after an operation; one that raises leaves it. -/
def step (op : Operation) : ReferenceLedger :=
  match l.apply op with
  | .ok next => next
  | .error _ => l

end ReferenceLedger

/-! ## What the operations do to equity -/

section equity

variable {l next : ReferenceLedger} {marks : Dict String ℚ} {symbol eventId priceBasis marked : String}
  {quantity rawPrice fee ratio m x y : ℚ}

theorem trade_spec (done : l.trade eventId symbol quantity rawPrice fee priceBasis = .ok next) :
    eventId ∉ l.appliedEvents ∧ 0 < rawPrice ∧ 0 ≤ fee ∧ quantity ≠ 0 ∧
    0 ≤ l.position symbol + quantity ∧ 0 ≤ l.cash - quantity * rawPrice - fee ∧ next = { l with
      cash := l.cash - quantity * rawPrice - fee
      positions := l.positions.set symbol (l.position symbol + quantity)
      costBasis := l.costBasis.set symbol (
        if 0 < quantity then l.basis symbol + quantity * rawPrice + fee
        else l.basis symbol * (l.position symbol + quantity) / l.position symbol)
      appliedEvents := l.appliedEvents ++ [eventId] } := by
  unfold ReferenceLedger.trade at done
  split at done
  · cases done
  next fresh =>
    split at done
    · cases done
    next valid =>
      dsimp only at done
      split at done
      · cases done
      next funded =>
        simp only [not_or, not_lt, not_le] at valid funded
        exact ⟨fresh, valid.2.1, valid.2.2.1, valid.2.2.2, funded.1, funded.2, (Except.ok.inj done).symm⟩

theorem split_spec (done : l.split eventId symbol ratio = .ok next) :
    0 < ratio ∧ eventId ∉ l.appliedEvents ∧ next = { l with
      positions := l.positions.set symbol (l.position symbol * ratio)
      appliedEvents := l.appliedEvents ++ [eventId] } := by
  unfold ReferenceLedger.split at done
  split at done
  · cases done
  next valid =>
    obtain ⟨positive, fresh⟩ := not_or.mp valid
    exact ⟨not_le.mp positive, fresh, (Except.ok.inj done).symm⟩

theorem dividendEntitlement_spec {perShare : ℚ} {payableOn : ℤ}
    (done : l.dividendEntitlement eventId symbol perShare payableOn = .ok next) :
    eventId ∉ l.appliedEvents ∧ 0 ≤ perShare ∧ next = { l with
      receivables := l.receivables ++
        [⟨eventId, symbol, l.position symbol, l.position symbol * perShare, payableOn⟩]
      appliedEvents := l.appliedEvents ++ [eventId] } := by
  unfold ReferenceLedger.dividendEntitlement at done
  split at done
  · cases done
  next valid =>
    obtain ⟨fresh, nonneg⟩ := not_or.mp valid
    exact ⟨fresh, not_lt.mp nonneg, (Except.ok.inj done).symm⟩

theorem payDividend_spec {paidOn : ℤ} (done : l.payDividend eventId paidOn = .ok next) :
    ∃ receivable ∈ l.receivables, receivable.eventId = eventId ∧ receivable.payableOn ≤ paidOn ∧ next = { l with
      cash := l.cash + receivable.amount
      receivables := l.receivables.filter fun item => item ≠ receivable } := by
  unfold ReferenceLedger.payDividend at done
  split at done
  · cases done
  next receivable found =>
    split at done
    · cases done
    next due =>
      exact ⟨receivable, List.mem_of_find?_eq_some found, of_decide_eq_true (List.find?_some found :),
        not_lt.mp due, (Except.ok.inj done).symm⟩

theorem unmarked_iff : l.Unmarked marks ↔
    ∃ symbol quantity, l.positions.get? symbol = some quantity ∧ quantity ≠ 0 ∧
      ∀ mark ∈ marks.get? symbol, mark ≤ 0 := by
  constructor
  · rintro ⟨⟨symbol, quantity⟩, member, rest⟩
    exact ⟨symbol, quantity, Dict.mem_entries.mp member, rest⟩
  · rintro ⟨symbol, quantity, found, rest⟩
    exact ⟨(symbol, quantity), Dict.mem_entries.mpr found, rest⟩

/-- Equity is known where the basis is raw and the open positions are marked. -/
theorem equity_eq_ok : l.equity marks priceBasis = .ok x ↔ priceBasis = "raw" ∧ ¬l.Unmarked marks ∧
    l.cash + l.positions.weigh (fun symbol quantity => quantity * marks.getD symbol 0) +
      (l.receivables.map DividendReceivable.amount).sum = x := by
  unfold ReferenceLedger.equity
  by_cases raw : priceBasis = "raw"
  · rw [if_neg (not_not.mpr raw)]
    by_cases unmarked : l.Unmarked marks
    · rw [if_pos unmarked]
      exact iff_of_false nofun fun h => h.2.1 unmarked
    · rw [if_neg unmarked, Except.ok.injEq]
      exact ⟨fun same => ⟨raw, unmarked, same⟩, fun h => h.2.2⟩
  · rw [if_pos raw]
    exact iff_of_false nofun fun h => raw h.1

/-- Equity depends on the worth alone, where the same positions are marked. -/
theorem equity_congr {marks' : Dict String ℚ} (change : ℚ → ℚ) (open_ : next.Unmarked marks' ↔ l.Unmarked marks)
    (worth : next.cash + next.positions.weigh (fun symbol quantity => quantity * marks'.getD symbol 0) +
        (next.receivables.map DividendReceivable.amount).sum =
      change (l.cash + l.positions.weigh (fun symbol quantity => quantity * marks.getD symbol 0) +
        (l.receivables.map DividendReceivable.amount).sum)) :
    next.equity marks' priceBasis = (l.equity marks priceBasis).map change := by
  unfold ReferenceLedger.equity
  rw [worth]
  by_cases raw : priceBasis = "raw"
  · rw [if_neg (not_not.mpr raw), if_neg (not_not.mpr raw)]
    by_cases unmarked : l.Unmarked marks
    · rw [if_pos unmarked, if_pos (open_.mpr unmarked)]
      rfl
    · rw [if_neg unmarked, if_neg fun other => unmarked (open_.mp other)]
      rfl
  · rw [if_pos raw, if_pos raw]
    rfl

/-- A trade moves the worth of its symbol by the quantity traded. -/
theorem weigh_trade (positions : Dict String ℚ) (symbol : String) (quantity : ℚ) (price : String → ℚ) :
    (positions.set symbol (positions.getD symbol 0 + quantity)).weigh (fun symbol quantity => quantity * price symbol) =
      positions.weigh (fun symbol quantity => quantity * price symbol) + quantity * price symbol := by
  have change := positions.weigh_set symbol (positions.getD symbol 0 + quantity) fun symbol quantity =>
    quantity * price symbol
  have held : ((positions.get? symbol).map fun quantity => quantity * price symbol).getD 0 =
      positions.getD symbol 0 * price symbol := by
    unfold Dict.getD
    cases positions.get? symbol with
    | none => exact (zero_mul _).symm
    | some quantity => rfl
  rw [held, add_mul, ← add_assoc, add_right_comm] at change
  exact add_right_cancel change

theorem trade_equity (done : l.trade eventId symbol quantity rawPrice fee priceBasis = .ok next)
    (marks_ : marks.get? symbol = some m) (positive : 0 < m) :
    next.equity marks marked = (l.equity marks marked).map fun equity => equity - fee + (m - rawPrice) * quantity := by
  obtain ⟨-, -, -, -, -, -, rfl⟩ := trade_spec done
  refine equity_congr _ ?_ ?_
  · -- The traded symbol has a mark, and the other positions are the same.
    rw [unmarked_iff, unmarked_iff]
    have other : ∀ s, (∀ mark ∈ marks.get? s, mark ≤ 0) → symbol ≠ s := by
      rintro s unmarked rfl
      exact absurd (unmarked m marks_) (not_le.mpr positive)
    constructor
    · rintro ⟨s, held, found, open_, unmarked⟩
      rw [Dict.get?_set, if_neg (other s unmarked)] at found
      exact ⟨s, held, found, open_, unmarked⟩
    · rintro ⟨s, held, found, open_, unmarked⟩
      refine ⟨s, held, ?_, open_, unmarked⟩
      rw [Dict.get?_set, if_neg (other s unmarked)]
      exact found
  · have price : marks.getD symbol 0 = m := by
      rw [Dict.getD, marks_]
      rfl
    dsimp only [ReferenceLedger.position]
    rw [weigh_trade l.positions symbol quantity fun symbol => marks.getD symbol 0, price]
    ring

/-- Before a trade or after it the symbol has a position, and equity needs its mark. -/
theorem trade_marked (done : l.trade eventId symbol quantity rawPrice fee priceBasis = .ok next)
    (before : l.equity marks marked = .ok x) (after : next.equity marks marked = .ok y) :
    ∃ mark ∈ marks.get? symbol, 0 < mark := by
  obtain ⟨-, -, -, some_, -, -, rfl⟩ := trade_spec done
  obtain ⟨-, before, -⟩ := equity_eq_ok.mp before
  obtain ⟨-, after, -⟩ := equity_eq_ok.mp after
  rw [unmarked_iff] at before after
  by_contra! none_
  refine after ⟨symbol, l.position symbol + quantity, Dict.get?_set_same _ _ _, fun closed => ?_, none_⟩
  have open_ : l.position symbol ≠ 0 := fun flat => some_ (by rw [flat, zero_add] at closed; exact closed)
  cases held : l.positions.get? symbol with
  | none => exact open_ (by rw [ReferenceLedger.position, Dict.getD, held]; rfl)
  | some quantity =>
    refine before ⟨symbol, quantity, held, fun flat => open_ ?_, none_⟩
    rw [ReferenceLedger.position, Dict.getD, held]
    exact flat

theorem split_equity (done : l.split eventId symbol ratio = .ok next) :
    next.equity (marks.modify symbol fun mark => mark / ratio) marked = l.equity marks marked := by
  obtain ⟨positive, -, rfl⟩ := split_spec done
  have unchanged : (l.equity marks marked).map id = l.equity marks marked := by
    cases l.equity marks marked <;> rfl
  rw [← unchanged]
  have marks_ (s : String) : (marks.modify symbol fun mark => mark / ratio).get? s =
      if symbol = s then (marks.get? s).map fun mark => mark / ratio else marks.get? s := Dict.get?_modify _ _ _ _
  refine equity_congr id ?_ ?_
  · rw [unmarked_iff, unmarked_iff]
    have nothing (s : String) : (∀ mark ∈ (marks.modify symbol fun mark => mark / ratio).get? s, mark ≤ 0) ↔
        ∀ mark ∈ marks.get? s, mark ≤ 0 := by
      rw [marks_]
      by_cases own : symbol = s
      · rw [if_pos own]
        cases marks.get? s with
        | none => simp
        | some mark => simp [div_nonpos_iff, positive.le, not_le.mpr positive]
      · rw [if_neg own]
    constructor
    · rintro ⟨s, held, found, open_, unmarked⟩
      rw [nothing] at unmarked
      rw [Dict.get?_set] at found
      split at found
      next own =>
        subst own
        obtain rfl := Option.some.inj found
        cases held : l.positions.get? symbol with
        | none =>
          refine absurd ?_ open_
          rw [ReferenceLedger.position, Dict.getD, held]
          exact zero_mul _
        | some quantity =>
          refine ⟨symbol, quantity, held, fun flat => open_ ?_, unmarked⟩
          rw [ReferenceLedger.position, Dict.getD, held, flat]
          exact zero_mul _
      next => exact ⟨s, held, found, open_, unmarked⟩
    · rintro ⟨s, held, found, open_, unmarked⟩
      rw [← nothing] at unmarked
      by_cases own : symbol = s
      · subst own
        refine ⟨symbol, held * ratio, ?_, mul_ne_zero open_ positive.ne', unmarked⟩
        rw [Dict.get?_set_same, ReferenceLedger.position, Dict.getD, found]
        rfl
      · refine ⟨s, held, ?_, open_, unmarked⟩
        rw [Dict.get?_set, if_neg own]
        exact found
  · have worth : (l.positions.set symbol (l.position symbol * ratio)).weigh
        (fun s quantity => quantity * (marks.modify symbol fun mark => mark / ratio).getD s 0) =
          l.positions.weigh fun s quantity => quantity * marks.getD s 0 := by
      refine Dict.weigh_set_congr (fun s quantity apart => ?_) ?_
      · rw [Dict.getD, marks_, if_neg apart.symm]
        rfl
      · rw [Dict.getD, marks_, if_pos rfl, ReferenceLedger.position, Dict.getD, Dict.getD]
        cases marks.get? symbol with
        | none => cases l.positions.get? symbol <;> simp
        | some mark =>
          cases l.positions.get? symbol with
          | none => simp
          | some quantity =>
            dsimp only [Option.map_some, Option.getD_some]
            field_simp
    dsimp only
    rw [worth]
    rfl

theorem payDividend_equity {paidOn : ℤ} (distinct : l.receivables.Nodup)
    (done : l.payDividend eventId paidOn = .ok next) : next.equity marks marked = l.equity marks marked := by
  obtain ⟨receivable, due, -, -, rfl⟩ := payDividend_spec done
  have unchanged : (l.equity marks marked).map id = l.equity marks marked := by
    cases l.equity marks marked <;> rfl
  rw [← unchanged]
  refine equity_congr id Iff.rfl ?_
  -- What is paid leaves the receivables, and nothing else does.
  have left : l.receivables.filter (fun item => item ≠ receivable) = l.receivables.erase receivable := by
    rw [distinct.erase_eq_filter]
    refine List.filter_congr fun item _ => ?_
    rw [bne, decide_not]
    rfl
  have total := ((List.perm_cons_erase due).map DividendReceivable.amount).sum_eq
  rw [List.map_cons, List.sum_cons] at total
  dsimp only [id]
  rw [left, total]
  ring

end equity

/-! ## Along the operations -/

/-- The event that an operation applies. -/
def Operation.applies : Operation → Option String
  | .trade eventId .. | .split eventId .. | .dividendEntitlement eventId .. => some eventId
  | .payDividend .. => none

/-- The dividend that an operation pays. -/
def Operation.pays : Operation → Option String
  | .payDividend eventId _ => some eventId
  | _ => none

namespace ReferenceLedger

def run (l : ReferenceLedger) (ops : List Operation) : ReferenceLedger := ops.foldl step l

/-- The operations that do not raise. -/
def accepted (l : ReferenceLedger) : List Operation → List Operation
  | [] => []
  | op :: rest =>
    match l.apply op with
    | .ok next => op :: accepted next rest
    | .error _ => accepted l rest

/-- What holds of a ledger that has paid some dividends. -/
structure Balanced (l : ReferenceLedger) (paid : List String) : Prop where
  funded : 0 ≤ l.cash
  long : ∀ symbol, 0 ≤ l.position symbol
  closed : ∀ symbol, l.position symbol = 0 → l.basis symbol = 0
  once : l.appliedEvents.Nodup
  paidOnce : paid.Nodup
  paidApplied : ∀ id ∈ paid, id ∈ l.appliedEvents
  due : ∀ item ∈ l.receivables, 0 ≤ item.amount ∧ item.eventId ∈ l.appliedEvents ∧ item.eventId ∉ paid
  distinct : (l.receivables.map DividendReceivable.eventId).Nodup

end ReferenceLedger

section balance

variable {l next : ReferenceLedger} {paid : List String} {symbol eventId : String}

theorem nodup_concat {l : List String} {id : String} (distinct : l.Nodup) (fresh : id ∉ l) : (l ++ [id]).Nodup := by
  rw [← List.concat_eq_append]
  exact distinct.concat fresh

theorem ReferenceLedger.Balanced.trade {quantity rawPrice fee : ℚ} {priceBasis : String} (h : l.Balanced paid)
    (traded : l.trade eventId symbol quantity rawPrice fee priceBasis = .ok next) : next.Balanced paid := by
  obtain ⟨fresh, priced, charged, some_, held, funded, rfl⟩ := trade_spec traded
  have position (s : String) : (l.positions.set symbol (l.position symbol + quantity)).getD s 0 =
      if symbol = s then l.position symbol + quantity else l.position s := Dict.getD_set _ _ _ _ _
  refine ⟨funded, fun s => ?_, fun s flat => ?_, nodup_concat h.once fresh, h.paidOnce,
    fun id member => List.mem_append_left _ (h.paidApplied id member), fun item member => ?_, h.distinct⟩
  · change 0 ≤ Dict.getD _ s 0
    rw [position]
    split
    · exact held
    · exact h.long s
  · change Dict.getD _ s 0 = 0 at flat
    change Dict.getD _ s 0 = 0
    rw [position] at flat
    rw [Dict.getD_set]
    by_cases own : symbol = s
    · -- Only a sale closes the position.
      rw [if_pos own] at flat ⊢
      have sold : ¬0 < quantity := by
        intro bought
        have := h.long symbol
        linarith
      rw [if_neg sold, flat, mul_zero, zero_div]
    · rw [if_neg own] at flat ⊢
      exact h.closed s flat
  · obtain ⟨amount, applied, unpaid⟩ := h.due item member
    exact ⟨amount, List.mem_append_left _ applied, unpaid⟩

theorem ReferenceLedger.Balanced.split {ratio : ℚ} (h : l.Balanced paid) (done : l.split eventId symbol ratio = .ok next) :
    next.Balanced paid := by
  obtain ⟨positive, fresh, rfl⟩ := split_spec done
  have position (s : String) : (l.positions.set symbol (l.position symbol * ratio)).getD s 0 =
      if symbol = s then l.position symbol * ratio else l.position s := Dict.getD_set _ _ _ _ _
  refine ⟨h.funded, fun s => ?_, fun s flat => ?_, nodup_concat h.once fresh, h.paidOnce,
    fun id member => List.mem_append_left _ (h.paidApplied id member), fun item member => ?_, h.distinct⟩
  · change 0 ≤ Dict.getD _ s 0
    rw [position]
    split
    · exact mul_nonneg (h.long symbol) positive.le
    · exact h.long s
  · change Dict.getD _ s 0 = 0 at flat
    rw [position] at flat
    apply h.closed
    by_cases own : symbol = s
    · rw [if_pos own] at flat
      exact own ▸ (mul_eq_zero.mp flat).resolve_right positive.ne'
    · rw [if_neg own] at flat
      exact flat
  · obtain ⟨amount, applied, unpaid⟩ := h.due item member
    exact ⟨amount, List.mem_append_left _ applied, unpaid⟩

theorem ReferenceLedger.Balanced.entitle {perShare : ℚ} {payableOn : ℤ} (h : l.Balanced paid)
    (done : l.dividendEntitlement eventId symbol perShare payableOn = .ok next) : next.Balanced paid := by
  obtain ⟨fresh, nonneg, rfl⟩ := dividendEntitlement_spec done
  refine ⟨h.funded, h.long, h.closed, nodup_concat h.once fresh, h.paidOnce,
    fun id member => List.mem_append_left _ (h.paidApplied id member), fun item member => ?_, ?_⟩
  · rcases List.mem_append.mp member with old | new
    · obtain ⟨amount, applied, unpaid⟩ := h.due item old
      exact ⟨amount, List.mem_append_left _ applied, unpaid⟩
    · obtain rfl := List.mem_singleton.mp new
      exact ⟨mul_nonneg (h.long symbol) nonneg, List.mem_append_right _ List.mem_cons_self,
        fun already => fresh (h.paidApplied eventId already)⟩
  · rw [List.map_append]
    refine nodup_concat h.distinct fun already => fresh ?_
    obtain ⟨item, member, rfl⟩ := List.mem_map.mp already
    exact (h.due item member).2.1

/-- The dividend paid is owed no longer. -/
theorem ReferenceLedger.Balanced.pay {paidOn : ℤ} (h : l.Balanced paid) (done : l.payDividend eventId paidOn = .ok next) :
    next.Balanced (paid ++ [eventId]) := by
  obtain ⟨receivable, owed, rfl, -, rfl⟩ := payDividend_spec done
  obtain ⟨amount, applied, unpaid⟩ := h.due receivable owed
  refine ⟨add_nonneg h.funded amount, h.long, h.closed, h.once, nodup_concat h.paidOnce unpaid, fun id member => ?_,
    fun item member => ?_, h.distinct.sublist (List.Sublist.map _ List.filter_sublist)⟩
  · rcases List.mem_append.mp member with old | new
    · exact h.paidApplied id old
    · exact List.mem_singleton.mp new ▸ applied
  · obtain ⟨owed', other⟩ := List.mem_filter.mp member
    obtain ⟨amount', applied', unpaid'⟩ := h.due item owed'
    refine ⟨amount', applied', fun already => ?_⟩
    rcases List.mem_append.mp already with old | new
    · exact unpaid' old
    · -- Two receivables of one event are the same.
      have same := List.inj_on_of_nodup_map h.distinct owed' owed (List.mem_singleton.mp new)
      exact of_decide_eq_true other same

/-- What an operation that is accepted keeps, and what it adds to the events and payments. -/
theorem ReferenceLedger.Balanced.apply {op : Operation} (h : l.Balanced paid) (done : l.apply op = .ok next) :
    next.Balanced (paid ++ op.pays.toList) ∧ next.appliedEvents = l.appliedEvents ++ op.applies.toList := by
  have unpaid : paid ++ (none : Option String).toList = paid := List.append_nil paid
  cases op with
  | trade eventId symbol quantity rawPrice fee priceBasis =>
    exact ⟨unpaid.symm ▸ h.trade done, by obtain ⟨-, -, -, -, -, -, rfl⟩ := trade_spec done; rfl⟩
  | split eventId symbol ratio =>
    exact ⟨unpaid.symm ▸ h.split done, by obtain ⟨-, -, rfl⟩ := split_spec done; rfl⟩
  | dividendEntitlement eventId symbol perShare payableOn =>
    exact ⟨unpaid.symm ▸ h.entitle done, by obtain ⟨-, -, rfl⟩ := dividendEntitlement_spec done; rfl⟩
  | payDividend eventId paidOn =>
    exact ⟨h.pay done, by obtain ⟨-, -, -, -, rfl⟩ := payDividend_spec done; exact (List.append_nil _).symm⟩

theorem ReferenceLedger.Balanced.run (h : l.Balanced paid) (ops : List Operation) :
    (l.run ops).Balanced (paid ++ (l.accepted ops).filterMap Operation.pays) ∧
      (l.run ops).appliedEvents = l.appliedEvents ++ (l.accepted ops).filterMap Operation.applies := by
  induction ops generalizing l paid with
  | nil => exact ⟨(List.append_nil paid).symm ▸ h, (List.append_nil _).symm⟩
  | cons op rest ih =>
    unfold ReferenceLedger.run ReferenceLedger.accepted
    rw [List.foldl_cons]
    cases done : l.apply op with
    | error fault =>
      rw [show l.step op = l by rw [ReferenceLedger.step, done]]
      exact ih h
    | ok next =>
      rw [show l.step op = next by rw [ReferenceLedger.step, done]]
      obtain ⟨balanced, events⟩ := h.apply done
      obtain ⟨later, laterEvents⟩ := ih balanced
      dsimp only
      rw [events, List.append_assoc] at laterEvents
      rw [List.append_assoc] at later
      have pays : (op :: next.accepted rest).filterMap Operation.pays =
          op.pays.toList ++ (next.accepted rest).filterMap Operation.pays := by
        cases paid_ : op.pays <;> simp [paid_]
      have applies : (op :: next.accepted rest).filterMap Operation.applies =
          op.applies.toList ++ (next.accepted rest).filterMap Operation.applies := by
        cases applied : op.applies <;> simp [applied]
      rw [pays, applies]
      exact ⟨later, laterEvents⟩

theorem empty_balanced (accountId : String) {cash : ℚ} (funded : 0 ≤ cash) :
    ({ accountId, cash } : ReferenceLedger).Balanced [] where
  funded := funded
  long _ := le_rfl
  closed _ _ := rfl
  once := List.nodup_nil
  paidOnce := List.nodup_nil
  paidApplied _ member := nomatch member
  due _ member := nomatch member
  distinct := List.nodup_nil

end balance

/-- How an operation may change the equity at marks. -/
def Operation.Conserves (l next : ReferenceLedger) (marks : Dict String ℚ) (priceBasis : String) : Operation → Prop
  | .trade _ symbol quantity rawPrice fee _ =>
    (∀ mark ∈ marks.get? symbol, 0 < mark → next.equity marks priceBasis =
      (l.equity marks priceBasis).map fun equity => equity - fee + (mark - rawPrice) * quantity) ∧
    ∀ before after, l.equity marks priceBasis = .ok before → next.equity marks priceBasis = .ok after →
      ∃ mark ∈ marks.get? symbol, 0 < mark
  | .split _ symbol ratio =>
    next.equity (marks.modify symbol fun mark => mark / ratio) priceBasis = l.equity marks priceBasis
  | .dividendEntitlement .. => True
  | .payDividend .. => next.equity marks priceBasis = l.equity marks priceBasis

/-- Whatever operations are tried on an empty ledger: it stays long and funded, applies every event and pays every
dividend at most once, a closed position has no cost basis, and the next operation conserves equity. -/
theorem ledger_conserves (accountId : String) (cash : ℚ) (funded : 0 ≤ cash) (ops : List Operation) :
    let start : ReferenceLedger := { accountId, cash }
    let l := start.run ops
    (0 ≤ l.cash ∧ ∀ symbol, 0 ≤ l.position symbol) ∧
    ((start.accepted ops).filterMap Operation.applies).Nodup ∧
    ((start.accepted ops).filterMap Operation.pays).Nodup ∧
    (∀ symbol, l.position symbol = 0 → l.basis symbol = 0) ∧
    ∀ op next, l.apply op = .ok next → ∀ marks priceBasis, op.Conserves l next marks priceBasis := by
  obtain ⟨balanced, events⟩ := (empty_balanced accountId funded).run ops
  rw [List.nil_append] at balanced events
  refine ⟨⟨balanced.funded, balanced.long⟩, events ▸ balanced.once, balanced.paidOnce, balanced.closed,
    fun op next done marks priceBasis => ?_⟩
  cases op with
  | trade eventId symbol quantity rawPrice fee basis =>
    exact ⟨fun mark marked positive => trade_equity done marked positive,
      fun before after known known' => trade_marked done known known'⟩
  | split eventId symbol ratio => exact split_equity done
  | dividendEntitlement eventId symbol perShare payableOn => trivial
  | payDividend eventId paidOn => exact payDividend_equity (balanced.distinct.of_map _) done

/-- A purchase, a dividend that is paid and paid again, a split. -/
def quarter : List Operation := [.trade "buy" "SYNTH" 2 100 1 "raw", .dividendEntitlement "dividend" "SYNTH" 3 40,
  .payDividend "dividend" 41, .payDividend "dividend" 42, .split "split" "SYNTH" 2]

theorem ledger_conserves_quarter :
    0 ≤ (({ accountId := "account", cash := 500 } : ReferenceLedger).run quarter).cash :=
  (ledger_conserves "account" 500 (by norm_num) quarter).1.1

example : (({ accountId := "account", cash := 500 } : ReferenceLedger).run quarter).equity
    (Dict.empty.set "SYNTH" 50) "raw" = .ok 505 := by
  decide +kernel

end TradeAgent.Reference
