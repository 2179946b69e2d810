import Mathlib.Data.List.TakeWhile
import Mathlib.Data.String.Basic
import Mathlib.Logic.Equiv.Nat
import TradeAgent.EntryBudget
import TradeAgent.EventPerformance
import TradeAgent.Library.Grouping
import TradeAgent.Library.Rounding

/-! The valued history of a flat paper account: its fills and fees in time order, the reserves for what was not posted,
and what it was worth whenever nothing was held. -/
namespace TradeAgent.Event.AccountHistory

open Scalp (Stamp)
open Performance (residualRate feeReserve)

/-! ## Histories -/

/-- An amount as it is written; not all text is a finite number. -/
abbrev Figure := Option ℚ

/-- A timestamp as it is written; not all text is one. -/
abbrev Moment := Option Stamp

structure HistoryOrder where
  id : String
  clientOrderId : String
  symbol : String
  side : String
  status : String
  filledQuantity : Figure
  filledAveragePrice : Option Figure
  createdAt : Moment
  submittedAt : Option Moment := none
  updatedAt : Option Moment := none
  filledAt : Option Moment := none
  canceledAt : Option Moment := none
  expiredAt : Option Moment := none

/-- An activity of the broker's; which of its entries it has depends on its type. -/
structure Activity where
  id : String
  activityType : String
  transactionTime : Option Moment := none
  createdAt : Option Moment := none
  orderId : Option String := none
  symbol : Option String := none
  side : Option String := none
  qty : Option Figure := none
  price : Option Figure := none
  netAmount : Option Figure := none
  status : Option String := none
  currency : Option String := none
  date : Option (Option ℤ) := none

structure History where
  complete : Bool
  brokerHost : String
  accountDigest : String
  observedAt : Moment
  accountCash : Option Figure
  orders : List HistoryOrder
  activities : List Activity

/-- The calendar of the market, dates with their texts, and what identifies a history. -/
structure Platform where
  localDate : Instant → ℤ
  isoformat : ℤ → String
  distinct : Function.Injective isoformat
  historyIdentity : History → String

def final : List String := ["filled", "canceled", "expired", "rejected"]
def cryptoTakerFeeReserve : ℚ := 25 / 10000
def cent : ℚ := 1 / 100

def stamp : Moment → Except Fault Instant
  | some (.aware at_) => .ok at_
  | some (.naive _) => .error (.value "history timestamp must identify its timezone")
  | none => .error (.value "Invalid isoformat string")

def number : Figure → Except Fault ℚ
  | some value => .ok value
  | none => .error (.value "invalid history amount")

/-- `row[name]`. -/
def required (name : String) (entry : Option α) : Except Fault α :=
  match entry with
  | some value => .ok value
  | none => .error (.key name)

/-- An input that is wrong raises. -/
def refuse (text : String) (wrong : Prop) [Decidable wrong] : Except Fault Unit :=
  if wrong then .error (.value text) else .ok ()

/-- A symbol without its slash. -/
def bare (symbol : String) : String := String.ofList (symbol.toList.filter (· ≠ '/'))

/-! ## Activities -/

/-- A row of the timeline, or a reserve beside it. -/
structure Entry extends TimelineRow where
  id : String
  basis : Option String := none
  deriving DecidableEq

/-- What is filled of a crypto side in a day. -/
structure CryptoGroup where
  quantity : ℚ
  value : ℚ
  maxPrice : ℚ
  at_ : Instant
  deriving DecidableEq

def CryptoGroup.join (group fill : CryptoGroup) : CryptoGroup where
  quantity := group.quantity + fill.quantity
  value := group.value + fill.value
  maxPrice := max group.maxPrice fill.maxPrice
  at_ := max group.at_ fill.at_

/-- What an activity adds to the tally. -/
structure Effect where
  row : Entry
  fill : Option (String × ℚ × ℚ) := none
  crypto : Option ((ℤ × String) × CryptoGroup) := none
  coinFee : Option (ℤ × ℚ) := none
  dollarFee : Option (ℤ × ℚ) := none
  funding : Option ℚ := none

structure Tally where
  activityIds : List String := []
  totals : Dict String ℚ := .empty
  values : Dict String ℚ := .empty
  timeline : List Entry := []
  crypto : Dict (ℤ × String) CryptoGroup := .empty
  coinFees : Dict ℤ ℚ := .empty
  dollarFees : Dict ℤ ℚ := .empty
  funding : ℚ := 0
  fundingIds : List String := []

/-- What the orders and the time of a history say of its activities. -/
structure Scope where
  observed : Instant
  orders : Dict String HistoryOrder

def Scope.knownSymbols (scope : Scope) : List String := scope.orders.values.map fun order => bare order.symbol

variable (platform : Platform)

/-- What a fill of an order adds; those of a crypto side in a day are kept together. -/
def filled (row : Activity) (at_ : Instant) (order : HistoryOrder) (quantity price : ℚ) : Effect :=
  let signed := if order.side = "buy" then quantity else -quantity
  let regulatory := if order.side = "sell" ∧ order.symbol ≠ "BTC/USD" then
    feeReserve .sell quantity (quantity * price) else 0
  { row :=
      { at_, id := row.id, symbol := bare order.symbol, quantity := signed, cash := -signed * price
        reserve := quantity * price * residualRate + regulatory }
    fill := some (order.id, quantity, quantity * price)
    crypto := if order.symbol = "BTC/USD" then
        some ((platform.localDate at_, order.side), ⟨quantity, quantity * price, max 0 price, at_⟩)
      else none }

/-- A `FILL`. -/
def fill (scope : Scope) (row : Activity) (at_ : Instant) : Except Fault Effect := do
  let order ← (row.orderId.bind scope.orders.get?).elim (.error (.value "fill ownership/side mismatch")) .ok
  refuse "fill ownership/side mismatch" ((row.symbol, row.side) ≠ (some order.symbol, some order.side))
  let quantity ← number (← required "qty" row.qty)
  let price ← number (← required "price" row.price)
  refuse "invalid fill" (quantity ≤ 0 ∨ price ≤ 0 ∨ order.side ∉ ["buy", "sell"])
  return filled platform row at_ order quantity price

/-- The day a `CFEE` is for, and whether its asset is one that is valued. -/
def cryptoFee (scope : Scope) (row : Activity) (at_ : Instant) (entry : Entry) : Except Fault Effect := do
  let feeDay ← (row.date.getD (some (platform.localDate at_))).elim (.error (.value "Invalid isoformat string")) .ok
  refuse "future fee effective date" (platform.localDate scope.observed < feeDay)
  refuse "unvalued crypto fee asset" (entry.quantity ≠ 0 ∧ entry.symbol ≠ "BTCUSD")
  return {
    row := entry
    coinFee := if entry.quantity = 0 then none else some (feeDay, -entry.quantity)
    dollarFee := if entry.quantity = 0 then some (feeDay, -entry.cash) else none }

/-- A `FEE` or a `CFEE`. -/
def fee (scope : Scope) (row : Activity) (at_ : Instant) : Except Fault Effect := do
  let cash ← number (← required "net_amount" row.netAmount)
  let quantity ← number (row.qty.getD (some 0))
  let symbol := bare (row.symbol.getD "")
  refuse "unsupported or ambiguous fee"
    (row.status ≠ some "executed" ∨ row.currency ≠ some "USD" ∨ 0 < cash ∨ 0 < quantity ∨
      (quantity ≠ 0 ∧ (cash ≠ 0 ∨ symbol ∉ scope.knownSymbols)) ∨ (quantity = 0 ∧ symbol ≠ "") ∨
      (row.activityType = "FEE" ∧ quantity ≠ 0))
  let entry : Entry := { at_, id := row.id, symbol, quantity, cash, reserve := 0 }
  if row.activityType = "CFEE" then cryptoFee platform scope row at_ entry else return { row := entry }

/-- A `JNLC`: only the first funding, before any order. -/
def journal (scope : Scope) (row : Activity) (at_ : Instant) (fundingIds : List String) : Except Fault Effect := do
  let amount ← number (← required "net_amount" row.netAmount)
  refuse "only an identified initial funding journal is supported"
    (fundingIds ≠ [] ∨ amount ≤ 0 ∨ row.currency ≠ some "USD" ∨ row.status ≠ some "executed" ∨
      row.symbol.any (· ≠ "") ∨ row.qty.isSome)
  let late ← scope.orders.values.anyM fun order => do return (← stamp order.createdAt) ≤ at_
  refuse "only an identified initial funding journal is supported" late
  return {
    row := { at_, id := row.id, symbol := "", quantity := 0, cash := 0, reserve := 0, externalCashFlow := some amount }
    funding := some amount }

def effect (scope : Scope) (row : Activity) (fundingIds : List String) : Except Fault Effect := do
  let at_ ← stamp ((row.transactionTime.or row.createdAt).getD none)
  refuse "future broker activity" (scope.observed < at_)
  if row.activityType = "FILL" then fill platform scope row at_
  else if row.activityType ∈ ["CFEE", "FEE"] then fee platform scope row at_
  else if row.activityType = "JNLC" then journal scope row at_ fundingIds
  else throw (.value ("unvalued broker activity type: " ++ row.activityType))

/-- Adds to the value of a key what an effect has for it. -/
def gathered (join : α → α → α) (d : Dict κ α) [DecidableEq κ] (found : Option (κ × α)) : Dict κ α :=
  found.elim d fun (key, value) => d.gather join key value

def Tally.take (t : Tally) (id : String) (effect : Effect) : Tally where
  activityIds := t.activityIds ++ [id]
  totals := gathered (· + ·) t.totals (effect.fill.map fun fill => (fill.1, fill.2.1))
  values := gathered (· + ·) t.values (effect.fill.map fun fill => (fill.1, fill.2.2))
  timeline := t.timeline ++ [effect.row]
  crypto := gathered CryptoGroup.join t.crypto effect.crypto
  coinFees := gathered (· + ·) t.coinFees effect.coinFee
  dollarFees := gathered (· + ·) t.dollarFees effect.dollarFee
  funding := t.funding + effect.funding.getD 0
  fundingIds := t.fundingIds ++ if effect.funding.isSome then [id] else []

def Tally.add (scope : Scope) (t : Tally) (row : Activity) : Except Fault Tally := do
  refuse "duplicate broker activity" (row.id ∈ t.activityIds)
  return t.take row.id (← effect platform scope row t.fundingIds)

/-! ## Values -/

structure Report where
  identity : String
  accountDigest : String
  observedAt : Instant
  brokerOrderIds : List String
  buyClientIds : Dict ℤ (List String)
  timeline : List Entry
  feeReserves : List Entry
  externalFunding : ℚ
  accountCash : Option Figure
  unexplainedCashDeficit : ℚ
  cashPnl : ℚ
  economicPnl : ℚ
  peakPnl : ℚ

/-- The instruments whose fills are valued. -/
def valuedSymbols : List String := ["AAPL", "MSFT", "NVDA", "BTC/USD"]

def unvaluedInstrument (order : HistoryOrder) : Except Fault Bool :=
  if order.symbol ∈ valuedSymbols then .ok false else do return (← number order.filledQuantity) ≠ 0

/-- An average is within a rounding of what the fills of an order were worth. -/
def averaged (value quantity : ℚ) (average : Option Figure) : Except Fault Bool :=
  match average with
  | none => .ok false
  | some average => do return |value - quantity * (← number average)| ≤ 1 / 100000000

/-- An order must be final, with its fills among the activities; BUYs count by the day they were created. -/
def settle (scope : Scope) (t : Tally) (buys : Dict ℤ (List String)) (order : HistoryOrder) :
    Except Fault (Dict ℤ (List String)) := do
  let quantity ← number order.filledQuantity
  let created ← stamp order.createdAt
  refuse "unresolved or incompletely valued broker order"
    (order.status ∉ final ∨ scope.observed < created ∨ order.side ∉ ["buy", "sell"] ∨ quantity < 0 ∨
      t.totals.getD order.id 0 ≠ quantity)
  let exact ← if quantity = 0 then .ok true
    else averaged (t.values.getD order.id 0) quantity order.filledAveragePrice
  refuse "unresolved or incompletely valued broker order" (exact = false)
  let day := platform.localDate created
  return if order.side = "buy" then buys.set day (buys.getD day [] ++ [order.clientOrderId]) else buys

/-- The allowance for the fees of a crypto side in a day that were not posted; what is not negative rounds up. -/
def unposted (t : Tally) (day : ℤ) (side : String) (group : CryptoGroup) : ℚ :=
  Rounding.quantize .ceiling cent
    (if side = "buy" then max 0 (group.quantity * cryptoTakerFeeReserve - t.coinFees.getD day 0) * group.maxPrice
      else max 0 (group.value * cryptoTakerFeeReserve - t.dollarFees.getD day 0))

def cryptoReserve (t : Tally) (entry : (ℤ × String) × CryptoGroup) : Option Entry :=
  let amount := unposted t entry.1.1 entry.1.2 entry.2
  if amount = 0 then none
  else some
    { at_ := entry.2.at_, id := "estimated-crypto-fee:" ++ platform.isoformat entry.1.1 ++ ":" ++ entry.1.2
      symbol := "", quantity := 0, cash := 0, reserve := amount
      basis := some "unposted fee allowance at 0.25%, rounded up; not an actual fee" }

def reserves (t : Tally) : List Entry := t.crypto.entries.filterMap (cryptoReserve platform t)

/-- The reserve for what fee reserves leave of the missing cash. -/
def unattributed (observed : Instant) (unexplained : ℚ) : Entry where
  at_ := observed
  id := "unattributed-cash-deficit-reserve"
  symbol := ""
  quantity := 0
  cash := 0
  reserve := unexplained
  basis := some "unexplained cash-deficit reserve; not an assigned fee or P&L"

/-- What of the account's cash is missing, and the reserves for it. -/
def reconcile (accountCash : Option Figure) (scope : Scope) (t : Tally) (feeReserves : List Entry) :
    Except Fault (ℚ × List Entry) :=
  match accountCash with
  | none => .ok (0, feeReserves)
  | some accountCash => do
    refuse "cash reconciliation requires the initial funding journal" (t.fundingIds = [])
    let discrepancy := t.funding + (t.timeline.map fun row => row.cash).sum - (← number accountCash)
    refuse "unexplained positive account cash flow requires review" (discrepancy < -cent)
    let deficit := max 0 discrepancy
    let unexplained := max 0 (deficit - (feeReserves.map fun row => row.reserve).sum)
    return (deficit, if unexplained = 0 then feeReserves else feeReserves ++ [unattributed scope.observed unexplained])

/-- By time, then by id; the texts of instants in one zone are ordered as they are. -/
def Entry.le (a b : Entry) : Prop := a.at_ < b.at_ ∨ a.at_ = b.at_ ∧ a.id ≤ b.id

instance : DecidableRel Entry.le := fun a b =>
  inferInstanceAs (Decidable (a.at_ < b.at_ ∨ a.at_ = b.at_ ∧ a.id ≤ b.id))

def chronological (rows : List Entry) : List Entry := rows.insertionSort Entry.le

structure Valuation where
  inventory : Dict String ℚ := .empty
  cash : ℚ := 0
  reserve : ℚ := 0
  peak : ℚ := 0

def held (inventory : Dict String ℚ) (row : Entry) : Dict String ℚ :=
  inventory.set row.symbol (inventory.getD row.symbol 0 + row.quantity)

/-- Nothing is held. -/
def Flat (inventory : Dict String ℚ) : Prop := ∀ value ∈ inventory.values, value = 0

instance (inventory : Dict String ℚ) : Decidable (Flat inventory) :=
  inferInstanceAs (Decidable (∀ value ∈ inventory.values, value = 0))

def Valuation.add (v : Valuation) (row : Entry) : Except Fault Valuation :=
  let inventory := held v.inventory row
  let cash := v.cash + row.cash
  let reserve := v.reserve + row.reserve
  if ∃ value ∈ inventory.values, value < 0 then .error (.value "history contains short or unowned inventory")
  else .ok { inventory, cash, reserve, peak := if Flat inventory then max v.peak (cash - reserve) else v.peak }

def valueHistory (history : History) : Except Fault Report := do
  refuse "complete paper account history required"
    (¬history.complete ∨ history.brokerHost ≠ "https://paper-api.alpaca.markets")
  let observed ← stamp history.observedAt
  let byId := Dict.ofList (history.orders.map fun order => (order.id, order))
  refuse "duplicate broker order history" (byId.keys.length ≠ history.orders.length ∨
    (byId.values.map HistoryOrder.clientOrderId).dedup.length ≠ byId.keys.length)
  let unvalued ← byId.values.anyM unvaluedInstrument
  refuse "unvalued historical instrument; explicit valuation review required" unvalued
  let scope : Scope := ⟨observed, byId⟩
  let t ← history.activities.foldlM (Tally.add platform scope) {}
  let buys ← byId.values.foldlM (settle platform scope t) .empty
  let (deficit, feeReserves) ← reconcile history.accountCash scope t (reserves platform t)
  let timeline := chronological t.timeline
  let v ← (chronological (timeline ++ feeReserves)).foldlM Valuation.add {}
  refuse "history does not establish a flat baseline" (¬Flat v.inventory)
  return {
    identity := platform.historyIdentity history
    accountDigest := history.accountDigest
    observedAt := observed
    brokerOrderIds := byId.keys.insertionSort (· ≤ ·)
    buyClientIds := buys
    timeline
    feeReserves
    externalFunding := t.funding
    accountCash := history.accountCash
    unexplainedCashDeficit := deficit
    cashPnl := v.cash
    economicPnl := v.cash - v.reserve
    peakPnl := v.peak }

/-- What the account was worth at a boundary. -/
def before (report : Report) (boundary : Instant) : Except Fault ℚ :=
  let rows := (chronological (report.timeline ++ report.feeReserves)).takeWhile fun row => row.at_ < boundary
  if Flat (rows.foldl held .empty) then .ok (rows.map fun row => row.cash - row.reserve).sum
  else .error (.value "historical boundary exposure lacks a verified mark")

/-! ## Activities in any order -/

variable {platform : Platform} {scope : Scope} {row : Activity} {at_ : Instant} {e : Effect} {t t' : Tally}

theorem refuse_ok {text : String} {wrong : Prop} [Decidable wrong] {done : Unit} :
    refuse text wrong = .ok done ↔ ¬wrong := by
  unfold refuse
  by_cases bad : wrong <;> simp [bad]

/-- What every effect has of its activity. -/
structure Effect.Of (row : Activity) (at_ : Instant) (e : Effect) : Prop where
  id : e.row.id = row.id
  time : e.row.at_ = at_
  side : ∀ c ∈ e.crypto, c.1.2 = "buy" ∨ c.1.2 = "sell"
  group : ∀ c ∈ e.crypto, c.2.at_ = at_

theorem fill_of (done : fill platform scope row at_ = .ok e) : e.Of row at_ ∧ e.funding = none := by
  obtain ⟨order, -, done⟩ := bind_ok_iff.mp done
  obtain ⟨_, -, done⟩ := bind_ok_iff.mp done
  obtain ⟨_, -, done⟩ := bind_ok_iff.mp done
  obtain ⟨quantity, -, done⟩ := bind_ok_iff.mp done
  obtain ⟨_, -, done⟩ := bind_ok_iff.mp done
  obtain ⟨price, -, done⟩ := bind_ok_iff.mp done
  obtain ⟨_, valid, done⟩ := bind_ok_iff.mp done
  have side : order.side = "buy" ∨ order.side = "sell" :=
    or_iff_not_imp_left.mpr (by simpa using (not_or.mp (not_or.mp (refuse_ok.mp valid)).2).2)
  cases done
  refine ⟨⟨rfl, rfl, fun c found => ?_, fun c found => ?_⟩, rfl⟩
  · by_cases coin : order.symbol = "BTC/USD"
    · simp [filled, coin] at found
      exact found ▸ side
    · simp [filled, coin] at found
  · by_cases coin : order.symbol = "BTC/USD"
    · simp [filled, coin] at found
      exact found ▸ rfl
    · simp [filled, coin] at found

theorem fee_of (done : fee platform scope row at_ = .ok e) : e.Of row at_ ∧ e.funding = none := by
  obtain ⟨_, -, done⟩ := bind_ok_iff.mp done
  obtain ⟨cash, -, done⟩ := bind_ok_iff.mp done
  obtain ⟨quantity, -, done⟩ := bind_ok_iff.mp done
  obtain ⟨_, -, done⟩ := bind_ok_iff.mp done
  split at done
  · obtain ⟨feeDay, -, done⟩ := bind_ok_iff.mp done
    obtain ⟨_, -, done⟩ := bind_ok_iff.mp done
    obtain ⟨_, -, done⟩ := bind_ok_iff.mp done
    cases done
    exact ⟨⟨rfl, rfl, by simp, by simp⟩, rfl⟩
  · cases done
    exact ⟨⟨rfl, rfl, by simp, by simp⟩, rfl⟩

/-- A journal is refused after another one, and only then does the other matter. -/
theorem journal_iff {ids : List String} : journal scope row at_ ids = .ok e ↔
    journal scope row at_ [] = .ok e ∧ ids = [] := by
  unfold journal
  simp only [bind_ok_iff, refuse_ok]
  by_cases first : ids = []
  · simp [first]
  · simp [first]

theorem journal_of (done : journal scope row at_ [] = .ok e) : e.Of row at_ ∧ e.funding.isSome := by
  obtain ⟨_, -, done⟩ := bind_ok_iff.mp done
  obtain ⟨amount, -, done⟩ := bind_ok_iff.mp done
  obtain ⟨_, -, done⟩ := bind_ok_iff.mp done
  obtain ⟨_, -, done⟩ := bind_ok_iff.mp done
  obtain ⟨_, -, done⟩ := bind_ok_iff.mp done
  cases done
  exact ⟨⟨rfl, rfl, by simp, by simp⟩, rfl⟩

/-- Of the activities before it, an activity's effect depends only on whether there was a funding. -/
theorem effect_iff {ids : List String} : effect platform scope row ids = .ok e ↔
    effect platform scope row [] = .ok e ∧ (e.funding.isSome → ids = []) := by
  unfold effect
  simp only [bind_ok_iff]
  constructor
  · rintro ⟨at_, stamped, _, past, done⟩
    by_cases isFill : row.activityType = "FILL"
    · rw [if_pos isFill] at done
      refine ⟨⟨at_, stamped, _, past, by rw [if_pos isFill]; exact done⟩, fun funded => ?_⟩
      simp [(fill_of done).2] at funded
    · by_cases isFee : row.activityType ∈ ["CFEE", "FEE"]
      · rw [if_neg isFill, if_pos isFee] at done
        refine ⟨⟨at_, stamped, _, past, by rw [if_neg isFill, if_pos isFee]; exact done⟩, fun funded => ?_⟩
        simp [(fee_of done).2] at funded
      · by_cases isJournal : row.activityType = "JNLC"
        · rw [if_neg isFill, if_neg isFee, if_pos isJournal] at done
          obtain ⟨alone, first⟩ := journal_iff.mp done
          exact ⟨⟨at_, stamped, _, past, by rw [if_neg isFill, if_neg isFee, if_pos isJournal]; exact alone⟩,
            fun _ => first⟩
        · rw [if_neg isFill, if_neg isFee, if_neg isJournal] at done
          cases done
  · rintro ⟨⟨at_, stamped, _, past, done⟩, first⟩
    refine ⟨at_, stamped, _, past, ?_⟩
    by_cases isFill : row.activityType = "FILL"
    · rw [if_pos isFill] at done ⊢
      exact done
    · by_cases isFee : row.activityType ∈ ["CFEE", "FEE"]
      · rw [if_neg isFill, if_pos isFee] at done ⊢
        exact done
      · by_cases isJournal : row.activityType = "JNLC"
        · rw [if_neg isFill, if_neg isFee, if_pos isJournal] at done ⊢
          exact journal_iff.mpr ⟨done, first (journal_of done).2⟩
        · rw [if_neg isFill, if_neg isFee, if_neg isJournal] at done
          cases done

theorem effect_of (done : effect platform scope row [] = .ok e) : ∃ at_ ≤ scope.observed, e.Of row at_ := by
  obtain ⟨at_, -, done⟩ := bind_ok_iff.mp done
  obtain ⟨_, past, done⟩ := bind_ok_iff.mp done
  refine ⟨at_, not_lt.mp (refuse_ok.mp past), ?_⟩
  split at done
  · exact (fill_of done).1
  · split at done
    · exact (fee_of done).1
    · split at done
      · exact (journal_of done).1
      · cases done

/-- What it takes to add an activity. -/
theorem add_iff : t.add platform scope row = .ok t' ↔
    ∃ e, effect platform scope row [] = .ok e ∧ row.id ∉ t.activityIds ∧
      (e.funding.isSome → t.fundingIds = []) ∧ t' = t.take row.id e := by
  unfold Tally.add
  simp only [bind_ok_iff, refuse_ok]
  constructor
  · rintro ⟨_, fresh, e, done, same⟩
    obtain ⟨alone, first⟩ := effect_iff.mp done
    cases same
    exact ⟨e, alone, fresh, first, rfl⟩
  · rintro ⟨e, alone, fresh, first, rfl⟩
    exact ⟨(), fresh, e, effect_iff.mpr ⟨alone, first⟩, rfl⟩

/-- Tallies that differ in the order their activities came in. -/
structure Tally.Alike (t t' : Tally) : Prop where
  activityIds : ∀ id, id ∈ t.activityIds ↔ id ∈ t'.activityIds
  totals : ∀ key, t.totals.get? key = t'.totals.get? key
  values : ∀ key, t.values.get? key = t'.values.get? key
  timeline : t.timeline.Perm t'.timeline
  crypto : ∀ key, t.crypto.get? key = t'.crypto.get? key
  coinFees : ∀ key, t.coinFees.get? key = t'.coinFees.get? key
  dollarFees : ∀ key, t.dollarFees.get? key = t'.dollarFees.get? key
  funding : t.funding = t'.funding
  fundingIds : t.fundingIds = [] ↔ t'.fundingIds = []

theorem Tally.Alike.refl (t : Tally) : t.Alike t :=
  ⟨fun _ => .rfl, fun _ => rfl, fun _ => rfl, .refl _, fun _ => rfl, fun _ => rfl, fun _ => rfl, rfl, .rfl⟩

theorem Tally.Alike.trans {t'' : Tally} (one : t.Alike t') (two : t'.Alike t'') : t.Alike t'' where
  activityIds id := (one.activityIds id).trans (two.activityIds id)
  totals key := (one.totals key).trans (two.totals key)
  values key := (one.values key).trans (two.values key)
  timeline := one.timeline.trans two.timeline
  crypto key := (one.crypto key).trans (two.crypto key)
  coinFees key := (one.coinFees key).trans (two.coinFees key)
  dollarFees key := (one.dollarFees key).trans (two.dollarFees key)
  funding := one.funding.trans two.funding
  fundingIds := one.fundingIds.trans two.fundingIds

theorem CryptoGroup.join_comm (a b : CryptoGroup) : a.join b = b.join a := by
  simp [CryptoGroup.join, add_comm, max_comm]

theorem CryptoGroup.join_assoc (a b c : CryptoGroup) : (a.join b).join c = a.join (b.join c) := by
  simp [CryptoGroup.join, add_assoc, max_assoc]

section gathered

variable {κ α : Type} [DecidableEq κ] {join : α → α → α} {d d' : Dict κ α}

theorem gathered_congr (alike : ∀ key, d.get? key = d'.get? key) (found : Option (κ × α)) (key : κ) :
    (gathered join d found).get? key = (gathered join d' found).get? key := by
  cases found with
  | none => exact alike key
  | some entry => simp [gathered, alike]

/-- Which of two values is joined first does not matter. -/
theorem gathered_swap (comm : ∀ a b, join a b = join b a) (assoc : ∀ a b c, join (join a b) c = join a (join b c))
    (d : Dict κ α) (one two : Option (κ × α)) (key : κ) :
    (gathered join (gathered join d one) two).get? key = (gathered join (gathered join d two) one).get? key := by
  rcases one with _ | ⟨k, a⟩
  · rfl
  · rcases two with _ | ⟨k', b⟩
    · rfl
    · simp only [gathered, Option.elim_some, Dict.get?_gather]
      by_cases same : k = k'
      · subst same
        by_cases here : k = key
        · cases old : d.get? k with
          | none => simp [here, comm a b]
          | some value => simp [here, assoc, comm a b]
        · simp [here]
      · by_cases here : k = key
        · have elsewhere : k' ≠ key := fun there => same (here.trans there.symm)
          simp [here, elsewhere]
        · simp [here, same]

end gathered

theorem Tally.Alike.take (alike : t.Alike t') (id : String) (e : Effect) : (t.take id e).Alike (t'.take id e) where
  activityIds other := by simp [Tally.take, alike.activityIds]
  totals := gathered_congr alike.totals _
  values := gathered_congr alike.values _
  timeline := alike.timeline.append_right _
  crypto := gathered_congr alike.crypto _
  coinFees := gathered_congr alike.coinFees _
  dollarFees := gathered_congr alike.dollarFees _
  funding := by simp [Tally.take, alike.funding]
  fundingIds := by simp [Tally.take, alike.fundingIds]

theorem take_swap (t : Tally) (id id' : String) (e e' : Effect) :
    ((t.take id e).take id' e').Alike ((t.take id' e').take id e) where
  activityIds other := by
    simp only [Tally.take, List.append_assoc, List.mem_append, List.mem_singleton]
    tauto
  totals := gathered_swap add_comm add_assoc _ _ _
  values := gathered_swap add_comm add_assoc _ _ _
  timeline := by
    simp only [Tally.take, List.append_assoc]
    exact (List.Perm.swap _ _ []).append_left _
  crypto := gathered_swap CryptoGroup.join_comm CryptoGroup.join_assoc _ _ _
  coinFees := gathered_swap add_comm add_assoc _ _ _
  dollarFees := gathered_swap add_comm add_assoc _ _ _
  funding := by simp [Tally.take, add_right_comm]
  fundingIds := by
    simp only [Tally.take, List.append_eq_nil_iff]
    tauto

theorem Tally.Alike.add (alike : t.Alike t') {next : Tally} (done : t.add platform scope row = .ok next) :
    ∃ next', t'.add platform scope row = .ok next' ∧ next.Alike next' := by
  obtain ⟨e, alone, fresh, first, rfl⟩ := add_iff.mp done
  exact ⟨_, add_iff.mpr ⟨e, alone, fun seen => fresh ((alike.activityIds _).mpr seen),
    fun funded => alike.fundingIds.mp (first funded), rfl⟩, alike.take row.id e⟩

/-- Two activities that are accepted one after the other are accepted the other way round. -/
theorem add_swap {other : Activity} {middle next : Tally} (one : t.add platform scope row = .ok middle)
    (two : middle.add platform scope other = .ok next) : ∃ middle' next', t.add platform scope other = .ok middle' ∧
      middle'.add platform scope row = .ok next' ∧ next.Alike next' := by
  obtain ⟨e, alone, fresh, first, rfl⟩ := add_iff.mp one
  obtain ⟨e', alone', fresh', first', rfl⟩ := add_iff.mp two
  have ids : other.id ∉ t.activityIds ∧ other.id ≠ row.id := by simpa [Tally.take, not_or] using fresh'
  have funds : e'.funding.isSome → t.fundingIds = [] ∧ e.funding = none := by simpa [Tally.take] using first'
  refine ⟨_, _, add_iff.mpr ⟨e', alone', ids.1, fun funded => (funds funded).1, rfl⟩,
    add_iff.mpr ⟨e, alone, ?_, fun funded => ?_, rfl⟩, take_swap t row.id other.id e e'⟩
  · simp [Tally.take, fresh, Ne.symm ids.2]
  · have lone : e'.funding = none := by
      by_contra funded'
      rw [(funds (Option.isSome_iff_ne_none.mpr funded')).2] at funded
      cases funded
    simp [Tally.take, first funded, lone]

theorem foldlM_alike (rows : List Activity) (alike : t.Alike t') {next : Tally}
    (done : rows.foldlM (Tally.add platform scope) t = .ok next) :
    ∃ next', rows.foldlM (Tally.add platform scope) t' = .ok next' ∧ next.Alike next' := by
  induction rows generalizing t t' with
  | nil =>
    cases done
    exact ⟨t', rfl, alike⟩
  | cons row rest ih =>
    obtain ⟨middle, first, later⟩ := bind_ok_iff.mp done
    obtain ⟨middle', first', same⟩ := alike.add first
    obtain ⟨next', later', same'⟩ := ih same later
    exact ⟨next', bind_ok_iff.mpr ⟨middle', first', later'⟩, same'⟩

/-- Activities are accepted in every order, or in none, and their tallies are alike. -/
theorem foldlM_perm {rows rows' : List Activity} (perm : rows.Perm rows') {next : Tally}
    (done : rows.foldlM (Tally.add platform scope) t = .ok next) :
    ∃ next', rows'.foldlM (Tally.add platform scope) t = .ok next' ∧ next.Alike next' := by
  induction perm generalizing t next with
  | nil => exact ⟨next, done, .refl _⟩
  | cons row _ ih =>
    obtain ⟨middle, first, later⟩ := bind_ok_iff.mp done
    obtain ⟨next', later', same⟩ := ih later
    exact ⟨next', bind_ok_iff.mpr ⟨middle, first, later'⟩, same⟩
  | swap row other rest =>
    obtain ⟨middle, first, done⟩ := bind_ok_iff.mp done
    obtain ⟨both, second, later⟩ := bind_ok_iff.mp done
    obtain ⟨middle', both', first', second', same⟩ := add_swap first second
    obtain ⟨next', later', same'⟩ := foldlM_alike rest same later
    exact ⟨next', bind_ok_iff.mpr ⟨middle', first', bind_ok_iff.mpr ⟨both', second', later'⟩⟩, same'⟩
  | trans _ _ ih ih' =>
    obtain ⟨middle, once, same⟩ := ih done
    obtain ⟨next', twice, same'⟩ := ih' once
    exact ⟨next', twice, same.trans same'⟩

/-- What holds of a tally of accepted activities. -/
structure Tally.Sound (scope : Scope) (t : Tally) : Prop where
  ids : t.timeline.map (fun row => row.id) = t.activityIds
  distinct : t.activityIds.Nodup
  past : ∀ row ∈ t.timeline, row.at_ ≤ scope.observed
  crypto : ∀ key group, t.crypto.get? key = some group →
    (key.2 = "buy" ∨ key.2 = "sell") ∧ group.at_ ≤ scope.observed

theorem Tally.Sound.empty (scope : Scope) : Tally.Sound scope {} :=
  ⟨rfl, List.nodup_nil, by simp, by simp⟩

theorem Tally.Sound.add (sound : t.Sound scope) {next : Tally} (done : t.add platform scope row = .ok next) :
    next.Sound scope := by
  obtain ⟨e, alone, fresh, -, rfl⟩ := add_iff.mp done
  obtain ⟨at_, past, found⟩ := effect_of alone
  refine ⟨?_, ?_, fun other member => ?_, fun key group kept => ?_⟩
  · simp [Tally.take, sound.ids, found.id]
  · refine List.Nodup.append sound.distinct (List.nodup_singleton _) ?_
    simpa using fresh
  · rcases List.mem_append.mp member with old | new
    · exact sound.past other old
    · rw [List.mem_singleton.mp new, found.time]
      exact past
  · cases crypto : e.crypto with
    | none =>
      simp only [Tally.take, gathered, crypto, Option.elim_none] at kept
      exact sound.crypto key group kept
    | some entry =>
      have side := found.side entry crypto
      have time := found.group entry crypto
      simp only [Tally.take, gathered, crypto, Option.elim_some, Dict.get?_gather] at kept
      by_cases same : entry.1 = key
      · rw [if_pos same] at kept
        refine ⟨same ▸ side, ?_⟩
        cases old : t.crypto.get? entry.1 with
        | none =>
          rw [old] at kept
          cases kept
          exact time.le.trans past
        | some before =>
          rw [old] at kept
          cases kept
          exact max_le (sound.crypto _ before old).2 (time.le.trans past)
      · rw [if_neg same] at kept
        exact sound.crypto key group kept

theorem foldlM_sound (rows : List Activity) (sound : t.Sound scope) {next : Tally}
    (done : rows.foldlM (Tally.add platform scope) t = .ok next) : next.Sound scope := by
  induction rows generalizing t with
  | nil =>
    cases done
    exact sound
  | cons row rest ih =>
    obtain ⟨middle, first, later⟩ := bind_ok_iff.mp done
    exact ih (sound.add first) later

/-! ## Time order -/

/-- Rows that are told apart by their time and id. -/
def Told (rows : List Entry) : Prop := ∀ a ∈ rows, ∀ b ∈ rows, a.id = b.id → a = b

instance : IsTrans Entry Entry.le where
  trans a b c first second := by
    rcases first with early | ⟨same, id⟩
    · rcases second with early' | ⟨same', -⟩
      · exact .inl (lt_trans early early')
      · exact .inl (same' ▸ early)
    · rcases second with early' | ⟨same', id'⟩
      · exact .inl (same ▸ early')
      · exact .inr ⟨same.trans same', le_trans id id'⟩

instance : Std.Total Entry.le where
  total a b := by
    rcases lt_trichotomy a.at_ b.at_ with early | same | late
    · exact .inl (.inl early)
    · rcases le_total a.id b.id with id | id
      · exact .inl (.inr ⟨same, id⟩)
      · exact .inr (.inr ⟨same.symm, id⟩)
    · exact .inr (.inl late)

theorem chronological_perm {rows rows' : List Entry} (perm : rows.Perm rows') (told : Told rows) :
    chronological rows = chronological rows' := by
  have here := List.perm_insertionSort Entry.le rows
  have there := List.perm_insertionSort Entry.le rows'
  refine (here.trans (perm.trans there.symm)).eq_of_pairwise (fun a b left right one two => ?_)
    (List.pairwise_insertionSort _ _) (List.pairwise_insertionSort _ _)
  have time : a.at_ = b.at_ := by
    rcases one with early | ⟨same, -⟩
    · rcases two with late | ⟨same, -⟩
      · exact absurd (lt_trans early late) (lt_irrefl _)
      · exact same.symm
    · exact same
  have id : a.id = b.id := by
    rcases one with early | ⟨-, id⟩
    · exact absurd early (time ▸ lt_irrefl _)
    · rcases two with late | ⟨-, id'⟩
      · exact absurd late (time ▸ lt_irrefl _)
      · exact le_antisymm id id'
  exact told a (here.subset left) b (perm.symm.subset (there.subset right)) id

theorem chronological_append (rows rows' : List Entry) : chronological (rows ++ rows') =
    rows.foldr (List.orderedInsert Entry.le) (chronological rows') := by
  unfold chronological
  induction rows with
  | nil => rfl
  | cons row rest ih => rw [List.cons_append, List.insertionSort_cons, ih, List.foldr_cons]

theorem Tally.Sound.told (sound : t.Sound scope) : Told t.timeline := by
  intro a left b right same
  exact List.inj_on_of_nodup_map (sound.ids ▸ sound.distinct) left right same

/-! ## Reserves -/

/-- The text of a fee reserve's id names its day and side. -/
theorem reserve_id {day day' side side' : String} (known : side = "buy" ∨ side = "sell")
    (known' : side' = "buy" ∨ side' = "sell")
    (same : "estimated-crypto-fee:" ++ day ++ ":" ++ side = "estimated-crypto-fee:" ++ day' ++ ":" ++ side') :
    day = day' ∧ side = side' := by
  have texts := congrArg String.toList same
  simp only [String.toList_append, List.append_assoc] at texts
  have rest := List.append_cancel_left texts
  have lasts := congrArg List.getLast? rest
  rcases known with rfl | rfl <;> rcases known' with rfl | rfl
  · exact ⟨String.toList_inj.mp (List.append_cancel_right rest), rfl⟩
  · simp at lasts
  · simp at lasts
  · exact ⟨String.toList_inj.mp (List.append_cancel_right rest), rfl⟩

/-- A fee reserve is that of a day and a side, at the time of their last fill. -/
theorem mem_reserves {reserve : Entry} (member : reserve ∈ reserves platform t) : ∃ key group,
    t.crypto.get? key = some group ∧ cryptoReserve platform t (key, group) = some reserve ∧ reserve.at_ = group.at_ ∧
      reserve.id = "estimated-crypto-fee:" ++ platform.isoformat key.1 ++ ":" ++ key.2 := by
  obtain ⟨⟨key, group⟩, listed, made⟩ := List.mem_filterMap.mp member
  refine ⟨key, group, Dict.mem_entries.mp listed, made, ?_⟩
  unfold cryptoReserve at made
  dsimp only at made
  split at made
  · cases made
  · cases made
    exact ⟨rfl, rfl⟩

theorem Tally.Sound.reserves_told (sound : t.Sound scope) : Told (reserves platform t) := by
  intro a left b right same
  obtain ⟨key, group, found, made, -, id⟩ := mem_reserves left
  obtain ⟨key', group', found', made', -, id'⟩ := mem_reserves right
  obtain ⟨day, side⟩ := reserve_id (sound.crypto key group found).1 (sound.crypto key' group' found').1
    (id.symm.trans (same.trans id'))
  have keys : key = key' := Prod.ext (platform.distinct day) side
  subst keys
  rw [found] at found'
  cases found'
  exact Option.some.inj (made.symm.trans made')

theorem Tally.Alike.reserves (alike : t.Alike t') : (reserves platform t).Perm (reserves platform t') := by
  have amounts : unposted t = unposted t' := by
    funext day side group
    unfold unposted Dict.getD
    rw [alike.coinFees, alike.dollarFees]
  have same : cryptoReserve platform t = cryptoReserve platform t' := by
    funext entry
    unfold cryptoReserve
    rw [amounts]
  unfold AccountHistory.reserves
  rw [same]
  exact (Dict.same_of_get? alike.crypto).filterMap _

theorem Tally.Alike.settle (alike : t.Alike t') : settle platform scope t = AccountHistory.settle platform scope t' := by
  funext buys order
  unfold AccountHistory.settle Dict.getD
  rw [alike.totals, alike.values]

/-- Alike tallies leave the same cash unexplained. -/
theorem Tally.Alike.reconcile (alike : t.Alike t') {accountCash : Option Figure} {rows rows' : List Entry}
    (perm : rows.Perm rows') {deficit : ℚ} {all : List Entry}
    (done : reconcile accountCash scope t rows = .ok (deficit, all)) :
    ∃ all', AccountHistory.reconcile accountCash scope t' rows' = .ok (deficit, all') ∧ all.Perm all' := by
  unfold AccountHistory.reconcile at done ⊢
  cases accountCash with
  | none =>
    cases done
    exact ⟨rows', rfl, perm⟩
  | some figure =>
    obtain ⟨_, funded, done⟩ := bind_ok_iff.mp done
    obtain ⟨cash, read, done⟩ := bind_ok_iff.mp done
    obtain ⟨_, explained, done⟩ := bind_ok_iff.mp done
    have cashes := (alike.timeline.map fun row : Entry => row.cash).sum_eq
    have sums := (perm.map fun row : Entry => row.reserve).sum_eq
    rw [cashes, alike.funding] at done explained
    rw [sums] at done
    cases done
    refine ⟨_, bind_ok_iff.mpr ⟨(), refuse_ok.mpr (mt alike.fundingIds.mpr (refuse_ok.mp funded)),
      bind_ok_iff.mpr ⟨cash, read, bind_ok_iff.mpr ⟨_, explained, rfl⟩⟩⟩, ?_⟩
    split
    · exact perm
    · exact perm.append_right _

/-- The reserves are the fee reserves, and one for the rest. -/
theorem reconcile_reserves {accountCash : Option Figure} {rows all : List Entry} {deficit : ℚ}
    (done : reconcile accountCash scope t rows = .ok (deficit, all)) :
    all = rows ∨ ∃ unexplained, all = rows ++ [unattributed scope.observed unexplained] := by
  unfold reconcile at done
  cases accountCash with
  | none =>
    cases done
    exact .inl rfl
  | some figure =>
    obtain ⟨_, -, done⟩ := bind_ok_iff.mp done
    obtain ⟨cash, -, done⟩ := bind_ok_iff.mp done
    obtain ⟨_, -, done⟩ := bind_ok_iff.mp done
    cases done
    split
    · exact .inl rfl
    · exact .inr ⟨_, rfl⟩

/-- The reserves of a sound tally are told apart, and none is later than the observation. -/
theorem Tally.Sound.reconciled (sound : t.Sound scope) {accountCash : Option Figure} {all : List Entry} {deficit : ℚ}
    (done : reconcile accountCash scope t (reserves platform t) = .ok (deficit, all)) :
    Told all ∧ ∀ row ∈ all, row.at_ ≤ scope.observed := by
  have told : Told (reserves platform t) := sound.reserves_told
  have past : ∀ row ∈ reserves platform t, row.at_ ≤ scope.observed := by
    intro row member
    obtain ⟨key, group, found, -, time, -⟩ := mem_reserves member
    exact time ▸ (sound.crypto key group found).2
  have apart : ∀ row ∈ reserves platform t, ∀ unexplained, row.id ≠ (unattributed scope.observed unexplained).id := by
    intro row member unexplained same
    obtain ⟨key, group, -, -, -, id⟩ := mem_reserves member
    have firsts := congrArg (fun text : String => text.toList.head?) (id.symm.trans same)
    simp [unattributed, String.toList_append] at firsts
  rcases reconcile_reserves done with rfl | ⟨unexplained, rfl⟩
  · exact ⟨told, past⟩
  · refine ⟨fun a left b right same => ?_, fun row member => ?_⟩
    · rcases List.mem_append.mp left with left | left
      · rcases List.mem_append.mp right with right | right
        · exact told a left b right same
        · rw [List.mem_singleton.mp right] at same
          exact absurd same (apart a left unexplained)
      · rcases List.mem_append.mp right with right | right
        · rw [List.mem_singleton.mp left] at same
          exact absurd same.symm (apart b right unexplained)
        · rw [List.mem_singleton.mp left, List.mem_singleton.mp right]
    · rcases List.mem_append.mp member with old | new
      · exact past row old
      · rw [List.mem_singleton.mp new]
        exact le_rfl

/-! ## Valuations -/

/-- What rows are worth, before anything that is held. -/
def worth (rows : List Entry) : ℚ := (rows.map fun row => row.cash - row.reserve).sum

variable {v v' : Valuation}

theorem Valuation.add_ok {row : Entry} (done : v.add row = .ok v') :
    v'.inventory = held v.inventory row ∧ v'.cash = v.cash + row.cash ∧ v'.reserve = v.reserve + row.reserve ∧
      v.peak ≤ v'.peak ∧ (Flat v'.inventory → v'.cash - v'.reserve ≤ v'.peak) := by
  unfold Valuation.add at done
  dsimp only at done
  split at done
  · cases done
  · cases done
    refine ⟨rfl, rfl, rfl, ?_, fun flat => ?_⟩
    · dsimp only
      split
      · exact le_max_left _ _
      · exact le_rfl
    · dsimp only at flat ⊢
      rw [if_pos flat]
      exact le_max_right _ _

/-- What a valuation has seen of its rows. -/
structure Valuation.Sees (v : Valuation) (rows : List Entry) (v' : Valuation) : Prop where
  inventory : v'.inventory = rows.foldl held v.inventory
  value : v'.cash - v'.reserve = v.cash - v.reserve + worth rows
  peak : v.peak ≤ v'.peak
  flat : ∀ p q, p ++ q = rows → p ≠ [] → Flat (p.foldl held v.inventory) →
    v.cash - v.reserve + worth p ≤ v'.peak

theorem foldlM_sees (rows : List Entry) (done : rows.foldlM Valuation.add v = .ok v') : v.Sees rows v' := by
  induction rows generalizing v with
  | nil =>
    cases done
    refine ⟨rfl, by simp [worth], le_rfl, fun p q split some => ?_⟩
    exact absurd (List.append_eq_nil_iff.mp split).1 some
  | cons row rest ih =>
    obtain ⟨middle, first, later⟩ := bind_ok_iff.mp done
    obtain ⟨inventory, cash, reserve, rises, covered⟩ := Valuation.add_ok first
    have sees := ih later
    have start : middle.cash - middle.reserve = v.cash - v.reserve + (row.cash - row.reserve) := by
      rw [cash, reserve]
      ring
    refine ⟨by rw [sees.inventory, inventory, List.foldl_cons], ?_, rises.trans sees.peak, fun p q split some flat => ?_⟩
    · rw [sees.value, start]
      simp [worth, add_assoc]
    · cases p with
      | nil => exact absurd rfl some
      | cons head tail =>
        cases split
        rw [List.foldl_cons, ← inventory] at flat
        have whole : v.cash - v.reserve + worth (row :: tail) = middle.cash - middle.reserve + worth tail := by
          rw [start]
          simp [worth, add_assoc]
        rw [whole]
        cases tail with
        | nil =>
          rw [show worth [] = 0 from rfl, add_zero]
          exact (covered flat).trans sees.peak
        | cons next others => exact sees.flat (next :: others) q rfl (by simp) flat

/-! ## Histories that are accepted -/

variable {history : History} {report : Report}

/-- What a report was valued on. -/
theorem valueHistory_rows (done : valueHistory platform history = .ok report) : ∃ v,
    (chronological (report.timeline ++ report.feeReserves)).foldlM Valuation.add {} = .ok v ∧ Flat v.inventory ∧
      report.economicPnl = v.cash - v.reserve ∧ report.peakPnl = v.peak ∧
      ∀ row ∈ report.timeline ++ report.feeReserves, row.at_ ≤ report.observedAt := by
  obtain ⟨_, -, done⟩ := bind_ok_iff.mp done
  obtain ⟨observed, -, done⟩ := bind_ok_iff.mp done
  obtain ⟨_, -, done⟩ := bind_ok_iff.mp done
  obtain ⟨_, -, done⟩ := bind_ok_iff.mp done
  obtain ⟨_, -, done⟩ := bind_ok_iff.mp done
  obtain ⟨t, tallied, done⟩ := bind_ok_iff.mp done
  obtain ⟨buys, -, done⟩ := bind_ok_iff.mp done
  obtain ⟨⟨deficit, feeReserves⟩, reconciled, done⟩ := bind_ok_iff.mp done
  obtain ⟨v, valued, done⟩ := bind_ok_iff.mp done
  obtain ⟨_, flat, done⟩ := bind_ok_iff.mp done
  have sound := foldlM_sound history.activities (.empty _) tallied
  cases done
  refine ⟨v, valued, not_not.mp (refuse_ok.mp flat), rfl, rfl, fun row member => ?_⟩
  rcases List.mem_append.mp member with posted | reserved
  · exact sound.past row ((List.perm_insertionSort _ _).subset posted)
  · exact (sound.reconciled reconciled).2 row reserved

/-- A history's activities are accepted in every order, and valued alike. -/
theorem valueHistory_perm {activities : List Activity} (perm : history.activities.Perm activities)
    (done : valueHistory platform history = .ok report) : ∃ other,
    valueHistory platform { history with activities } = .ok other ∧ other.cashPnl = report.cashPnl ∧
      other.economicPnl = report.economicPnl ∧ other.peakPnl = report.peakPnl ∧
      other.unexplainedCashDeficit = report.unexplainedCashDeficit ∧ other.timeline = report.timeline := by
  obtain ⟨_, complete, done⟩ := bind_ok_iff.mp done
  obtain ⟨observed, stamped, done⟩ := bind_ok_iff.mp done
  obtain ⟨_, unique, done⟩ := bind_ok_iff.mp done
  obtain ⟨unvalued, surveyed, done⟩ := bind_ok_iff.mp done
  obtain ⟨_, reviewed, done⟩ := bind_ok_iff.mp done
  obtain ⟨t, tallied, done⟩ := bind_ok_iff.mp done
  obtain ⟨buys, settled, done⟩ := bind_ok_iff.mp done
  obtain ⟨⟨deficit, feeReserves⟩, reconciled, done⟩ := bind_ok_iff.mp done
  obtain ⟨v, valued, done⟩ := bind_ok_iff.mp done
  obtain ⟨_, flat, done⟩ := bind_ok_iff.mp done
  have sound := foldlM_sound history.activities (.empty _) tallied
  obtain ⟨t', tallied', alike⟩ := foldlM_perm perm tallied
  obtain ⟨feeReserves', reconciled', reserved⟩ := alike.reconcile alike.reserves reconciled
  have timeline : chronological t.timeline = chronological t'.timeline :=
    chronological_perm alike.timeline sound.told
  have rows : chronological (chronological t.timeline ++ feeReserves) =
      chronological (chronological t'.timeline ++ feeReserves') := by
    rw [chronological_append, chronological_append, timeline,
      chronological_perm reserved (sound.reconciled reconciled).1]
  rw [alike.settle] at settled
  rw [rows] at valued
  cases done
  exact ⟨_, bind_ok_iff.mpr ⟨_, complete, bind_ok_iff.mpr ⟨_, stamped, bind_ok_iff.mpr ⟨_, unique,
    bind_ok_iff.mpr ⟨_, surveyed, bind_ok_iff.mpr ⟨_, reviewed, bind_ok_iff.mpr ⟨_, tallied',
    bind_ok_iff.mpr ⟨_, settled, bind_ok_iff.mpr ⟨_, reconciled', bind_ok_iff.mpr ⟨_, valued,
    bind_ok_iff.mpr ⟨_, flat, rfl⟩⟩⟩⟩⟩⟩⟩⟩⟩⟩, rfl, rfl, rfl, rfl, timeline.symm⟩

/-- The history of an account agrees with what it says of its boundaries: the peak is no less than nothing, than the
end or than any boundary, the end is what any later boundary has, and the order its activities are listed in does not
matter. -/
theorem history_agrees (valued : valueHistory platform history = .ok report) :
    0 ≤ report.peakPnl ∧ report.economicPnl ≤ report.peakPnl ∧
      (∀ boundary value, before report boundary = .ok value → value ≤ report.peakPnl) ∧
      (∀ boundary, report.observedAt < boundary → before report boundary = .ok report.economicPnl) ∧
      ∀ activities, history.activities.Perm activities → ∃ other,
        valueHistory platform { history with activities } = .ok other ∧ other.cashPnl = report.cashPnl ∧
          other.economicPnl = report.economicPnl ∧ other.peakPnl = report.peakPnl ∧
          other.unexplainedCashDeficit = report.unexplainedCashDeficit ∧ other.timeline = report.timeline := by
  obtain ⟨v, added, flat, economic, peak, past⟩ := valueHistory_rows valued
  have sees := foldlM_sees _ added
  have nonneg : 0 ≤ report.peakPnl := peak ▸ sees.peak
  -- Whatever rows come first, their worth was a peak once nothing was held.
  have covered : ∀ p q, p ++ q = chronological (report.timeline ++ report.feeReserves) →
      Flat (p.foldl held .empty) → worth p ≤ report.peakPnl := by
    intro p q split flat
    by_cases none : p = []
    · rw [none]
      exact nonneg
    · have bound := sees.flat p q split none flat
      rw [peak]
      simpa using bound
  have value : report.economicPnl = worth (chronological (report.timeline ++ report.feeReserves)) := by
    rw [economic, sees.value]
    simp
  have ended : Flat ((chronological (report.timeline ++ report.feeReserves)).foldl held .empty) :=
    sees.inventory ▸ flat
  refine ⟨nonneg, ?_, fun boundary value found => ?_, fun boundary later => ?_, fun activities perm =>
    valueHistory_perm perm valued⟩
  · rw [value]
    exact covered _ [] (List.append_nil _) ended
  · unfold before at found
    dsimp only at found
    split at found
    next held_ =>
      cases found
      exact covered _ _ List.takeWhile_append_dropWhile held_
    next => cases found
  · have all : (chronological (report.timeline ++ report.feeReserves)).takeWhile (fun row => row.at_ < boundary) =
        chronological (report.timeline ++ report.feeReserves) := by
      rw [List.takeWhile_eq_self_iff]
      intro row member
      have bound := past row ((List.perm_insertionSort _ _).subset member)
      exact decide_eq_true (lt_of_le_of_lt bound later)
    unfold before
    rw [all, value]
    exact if_pos ended

/-- The first of the days by its text, and others told from it. -/
def roundDate (day : ℤ) : String := "1970-01-01" ++ String.ofList (List.replicate (Equiv.intEquivNat day) '+')

theorem roundDate_injective : Function.Injective roundDate := by
  intro one two same
  have texts := congrArg (fun text : String => text.toList.length) same
  simp only [roundDate, String.toList_append, String.toList_ofList, List.length_append, List.length_replicate] at texts
  exact Equiv.intEquivNat.injective (Nat.add_left_cancel texts)

def roundCalendar : Platform where
  localDate at_ := at_ / 86400000000
  isoformat := roundDate
  distinct := roundDate_injective
  historyIdentity history := history.accountDigest

def roundOrder (id side : String) (average : ℚ) (createdAt : Instant) : HistoryOrder where
  id
  clientOrderId := id
  symbol := "AAPL"
  side
  status := "filled"
  filledQuantity := some 1
  filledAveragePrice := some (some average)
  createdAt := some (.aware createdAt)

def roundFill (id side : String) (price : ℚ) (time : Instant) : Activity where
  id := id ++ "-fill"
  activityType := "FILL"
  transactionTime := some (some (.aware time))
  orderId := some id
  symbol := some "AAPL"
  side := some side
  qty := some (some 1)
  price := some (some price)

def roundFunding : Activity where
  id := "funding"
  activityType := "JNLC"
  createdAt := some (some (.aware 0))
  netAmount := some (some 1000)
  status := some "executed"
  currency := some "USD"

/-- A share bought and sold, listed backwards, in an account that lacks two cents. -/
def roundHistory : History where
  complete := true
  brokerHost := "https://paper-api.alpaca.markets"
  accountDigest := "account"
  observedAt := some (.aware 20)
  accountCash := some (some (100998 / 100))
  orders := [roundOrder "entry" "buy" 100 10, roundOrder "exit" "sell" 110 12]
  activities := [roundFill "exit" "sell" 110 13, roundFill "entry" "buy" 100 11, roundFunding]

theorem history_agrees_round : ∃ report other, valueHistory roundCalendar roundHistory = .ok report ∧
    valueHistory roundCalendar { roundHistory with activities := roundHistory.activities.reverse } = .ok other ∧
    report.cashPnl = 10 ∧ other.cashPnl = 10 ∧ other.timeline = report.timeline ∧
    before report 21 = .ok report.economicPnl ∧ report.economicPnl ≤ report.peakPnl := by
  have accepted : (valueHistory roundCalendar roundHistory).map Report.cashPnl = .ok 10 := by decide +kernel
  cases valued : valueHistory roundCalendar roundHistory with
  | error fault => simp [valued, Except.map] at accepted
  | ok report =>
    have cash : report.cashPnl = 10 := by simpa [valued, Except.map] using accepted
    have seen : report.observedAt = 20 := by
      have observed : (valueHistory roundCalendar roundHistory).map Report.observedAt = .ok 20 := by decide +kernel
      simpa [valued, Except.map] using observed
    obtain ⟨-, below, -, later, orders⟩ := history_agrees valued
    obtain ⟨other, valued', cash', -, -, -, timeline⟩ := orders _ (List.reverse_perm _).symm
    exact ⟨report, other, rfl, valued', cash, cash'.trans cash, timeline, later 21 (by rw [seen]; decide), below⟩

end TradeAgent.Event.AccountHistory
