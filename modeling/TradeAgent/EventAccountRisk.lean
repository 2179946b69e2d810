import TradeAgent.PaperBaseline

/-! The risk of a paper account: what its orders are worth by the ledgers, the peak by their fills in turn, and the
limits that are kept for it. -/
namespace TradeAgent.Event.AccountRisk

open Performance AccountHistory

structure Calendar where
  localDate : Instant → ℤ
  midnight : ℤ → Instant

/-- The Monday of a day's week. -/
def monday (day : ℤ) : ℤ := day - (day + 3) % 7

structure RiskSettings where
  newsAccountDigest : Option String
  entryPolicy : EntryPolicy
  virtualEquity : ℚ
  dailyLossFraction : ℚ
  weeklyLossFraction : ℚ
  drawdownFraction : ℚ

/-- The control of an account's risk. -/
structure RiskState where
  accountDigest : String
  capital : ℚ
  peak : ℚ
  dailyLimit : ℚ
  weeklyLimit : ℚ
  drawdownLimit : ℚ
  observedAt : Instant

/-- An order beside its link. -/
structure LinkedRow where
  orderId : String
  accountDigest : Option String
  row : OrderRow

/-- The orders with their links, one for each client id. -/
structure OrderTable where
  rows : List LinkedRow
  distinct : (rows.map fun linked => linked.row.clientOrderId).Nodup

/-- The tables an account's risk reads, and the risks that were saved. -/
structure RiskTables where
  orders : OrderTable
  baselines : Dict String Report
  risks : Dict String RiskState

/-- By creation, ties by the order id. -/
def LinkedRow.before (a b : LinkedRow) : Prop :=
  a.row.createdAt < b.row.createdAt ∨ a.row.createdAt = b.row.createdAt ∧ a.orderId ≤ b.orderId

instance : DecidableRel LinkedRow.before := fun a b =>
  inferInstanceAs (Decidable (a.row.createdAt < b.row.createdAt ∨
    a.row.createdAt = b.row.createdAt ∧ a.orderId ≤ b.orderId))

/-- The orders of an account that its baseline does not value. -/
def OrderTable.after (table : OrderTable) (digest : String) (baseline : Option Report) : List OrderRow :=
  let rows := ((table.rows.filter fun linked => linked.accountDigest = some digest).insertionSort
    LinkedRow.before).map LinkedRow.row
  match baseline with
  | none => rows
  | some baseline => rows.filter fun row => row.brokerOrderId.all (· ∉ baseline.brokerOrderIds)

/-! ## Equity -/

def equity (selected : List OrderRow) (prices : Dict String ℚ) (capital offset : ℚ) : Except Fault ℚ :=
  let report := allocationLedgers selected prices (some capital) .iexPractice
  if report.economics.valued = false then .error (.value "account risk history/position cannot be valued")
  else match report.economicPaperEquity with
    | none => .error .type
    | some economic => .ok (economic + offset)

/-- Whether an order was filled before a boundary; an order that was created since was not. -/
def filledBefore (boundary : Instant) (row : OrderRow) : Except Fault Bool :=
  if boundary ≤ row.createdAt ∨ row.filled = 0 then .ok false
  else match row.link.broker.bind BrokerSnapshot.filledAt with
    | none => .error (.value "filled account history lacks an exact fill timestamp")
    | some (.naive _) => .error (.value "naive broker fill timestamp")
    | some (.aware filledAt) => .ok (filledAt < boundary)

def equityBefore (rows : List OrderRow) (baseline : Option Report) (capital : ℚ) (boundary : Instant) :
    Except Fault ℚ := do
  let selected ← rows.filterM (filledBefore boundary)
  let offset ← baseline.elim (.ok 0) fun baseline => before baseline boundary
  equity selected .empty capital offset

/-! ## The peak -/

structure Peak where
  cash : ℚ
  inventory : Dict String ℚ := .empty
  historicalPeak : ℚ

/-- The price an order reports, whatever it is. -/
def OrderRow.reported (row : OrderRow) : Except Fault ℚ :=
  (row.link.broker.bind BrokerSnapshot.filledAveragePrice).elim (.error .type) .ok

/-- One order of the peak's loop. -/
def Peak.add (capital : ℚ) (p : Peak) (row : OrderRow) : Except Fault Peak :=
  if row.filled = 0 then .ok p
  else do
    let quantity := row.filled
    let price ← OrderRow.reported row
    let signed := if row.side = .buy then quantity else -quantity
    let inventory := p.inventory.set row.symbol (p.inventory.getD row.symbol 0 + signed)
    let fee := if row.side = .sell then
      max sellMinimum (quantity * price * sellValueRate + quantity * sellShareRate) else 0
    let cash := p.cash - (signed * price + quantity * price * residualRate) - fee
    return {
      cash
      inventory
      historicalPeak := if Flat inventory then max p.historicalPeak (capital + cash) else p.historicalPeak }

/-! ## The risk -/

structure RiskReport where
  state : RiskState
  blocked : Bool
  economicEquity : ℚ
  dayStartEquity : ℚ
  weekStartEquity : ℚ

inductive RiskResult where
  | unvalued (reason : Fault)
  | valued (report : RiskReport)

/-- The current equity, and that at the start of the day and of the week. -/
def equities (rows : List OrderRow) (baseline : Option Report) (marks : Dict String ℚ) (capital : ℚ)
    (dayStart weekStart : Instant) : Except Fault (ℚ × ℚ × ℚ) := do
  let current ← equity rows marks capital (baseline.elim 0 Report.economicPnl)
  let atDayStart ← equityBefore rows baseline capital dayStart
  let atWeekStart ← equityBefore rows baseline capital weekStart
  return (current, atDayStart, atWeekStart)

/-- What is saved of a risk that was valued. -/
def merged (digest : String) (settings : RiskSettings) (saved : Option RiskState) (capital peak : ℚ) (now : Instant) :
    RiskState where
  accountDigest := digest
  capital
  peak
  dailyLimit := min ((saved.map RiskState.dailyLimit).getD 50) (settings.virtualEquity * settings.dailyLossFraction)
  weeklyLimit := min ((saved.map RiskState.weeklyLimit).getD 50) (settings.virtualEquity * settings.weeklyLossFraction)
  drawdownLimit :=
    min ((saved.map RiskState.drawdownLimit).getD 150) (settings.virtualEquity * settings.drawdownFraction)
  observedAt := now

def accountRisk (calendar : Calendar) (settings : RiskSettings) (marks : Dict String ℚ) (now : Instant)
    (tables : RiskTables) : Except Fault (RiskResult × RiskTables) := do
  let some digest := settings.newsAccountDigest | throw (.value "pinned paper account required")
  let today := calendar.localDate now
  let saved := tables.risks.get? digest
  let baseline := tables.baselines.get? digest
  if settings.entryPolicy = .operatorCalibration ∧ baseline.isNone then
    return (.unvalued (.value "complete broker baseline required"), tables)
  let capital := (saved.map RiskState.capital).getD settings.virtualEquity
  let rows := tables.orders.after digest baseline
  match equities rows baseline marks capital (calendar.midnight today) (calendar.midnight (monday today)) with
  | .error fault => return (.unvalued fault, tables)
  | .ok (current, dayStart, weekStart) => do
    let p ← rows.foldlM (Peak.add capital)
      { cash := baseline.elim 0 Report.economicPnl
        historicalPeak := baseline.elim capital fun baseline => capital + baseline.peakPnl }
    let peak := max (max (max (max ((saved.map RiskState.peak).getD capital) p.historicalPeak) dayStart) weekStart)
      current
    let state := merged digest settings saved capital peak now
    let blocked := current ≤ dayStart - state.dailyLimit ∨ current ≤ weekStart - state.weeklyLimit ∨
      current ≤ peak - state.drawdownLimit
    return (.valued ⟨state, blocked, current, dayStart, weekStart⟩,
      { tables with risks := tables.risks.set digest state })

/-! ## Two computations of equity -/

variable {rows : List OrderRow} {marks : Dict String ℚ} {capital offset value : ℚ} {row : OrderRow} {p p' : Peak}

/-- What is earned once nothing is held: what came in, less what it cost. -/
def realized (rows : List OrderRow) : ℚ := (rows.map OrderRow.cash).sum - (rows.map OrderRow.cost).sum

/-- Where nothing is held the marks do not matter. -/
theorem earned_of_flat (priced : Priced rows) (flat : ∀ symbol, net rows symbol = 0) (marks : Dict String ℚ) :
    (rows.map (OrderRow.earned marks)).sum = realized rows := by
  have sums := fold_sums rows {} priced
  have worth := sums.worth fun symbol => marks.getD symbol 0
  have nothing : (rows.foldl Totals.add {}).quantities.weigh (fun symbol quantity => quantity * marks.getD symbol 0) =
      0 := by
    refine List.sum_eq_zero fun amount member => ?_
    obtain ⟨e, listed, rfl⟩ := List.mem_map.mp member
    have held := sums.held e.1
    have found : (rows.foldl Totals.add {}).quantities.get? e.1 = some e.2 := Dict.mem_entries.mp listed
    rw [Dict.getD, found, flat] at held
    have none : e.2 = 0 := by simpa [Dict.getD] using held
    exact mul_eq_zero_of_left none _
  have start : ({} : Totals).quantities.weigh (fun symbol quantity => quantity * marks.getD symbol 0) = 0 := rfl
  have gains : (rows.map (OrderRow.gain marks)).sum = (rows.map OrderRow.cash).sum +
      (rows.map fun row => row.signed * marks.getD row.symbol 0).sum := by
    unfold OrderRow.gain
    exact List.sum_map_add
  rw [sum_earned, gains]
  unfold realized
  linarith

/-- The report on orders that are reported once. -/
theorem allocationLedgers_economic (distinct : (rows.map OrderRow.clientOrderId).Nodup) (marks : Dict String ℚ)
    (capital : ℚ) (purpose : Purpose) :
    (allocationLedgers rows marks (some capital) purpose).economics = economics rows marks capital ∧
      (allocationLedgers rows marks (some capital) purpose).economicPaperEquity =
        (economics rows marks capital).economicPaperPnl.map (capital + ·) := by
  unfold allocationLedgers
  dsimp only
  rw [confirmedRows_of_nodup distinct]
  refine ⟨rfl, ?_⟩
  cases (economics rows marks capital).economicPaperPnl <;> rfl

/-- Orders that could be valued have the prices of their fills. -/
theorem equity_priced (distinct : (rows.map OrderRow.clientOrderId).Nodup)
    (valued : equity rows marks capital offset = .ok value) : Priced rows := by
  obtain ⟨report, -⟩ := allocationLedgers_economic distinct marks capital .iexPractice
  unfold equity at valued
  dsimp only at valued
  rw [report] at valued
  split at valued
  next => cases valued
  next complete =>
    have whole : (economics rows marks capital).valued = true := by simpa using complete
    simp only [economics, Bool.and_eq_true, List.isEmpty_iff] at whole
    exact priced_of_valued whole.2

/-- The equity by the ledgers, once nothing is held. -/
theorem equity_of_flat (distinct : (rows.map OrderRow.clientOrderId).Nodup)
    (valued : equity rows marks capital offset = .ok value) (flat : ∀ symbol, net rows symbol = 0) :
    value = capital + (offset + realized rows) := by
  have priced := equity_priced distinct valued
  obtain ⟨report, economic⟩ := allocationLedgers_economic distinct marks capital .iexPractice
  have pnl := (economics_valued priced (fun symbol held => absurd (flat symbol) held : Marked rows marks)
    (some capital)).2
  unfold equity at valued
  dsimp only at valued
  rw [report, economic, pnl, earned_of_flat priced flat] at valued
  split at valued
  next => cases valued
  next =>
    cases valued
    ring

/-! ## The peak of orders that are valued -/

/-- What a priced order does to the peak's cash and inventory. -/
theorem peak_add (priced : row.filled ≠ 0 → row.price.isSome) (capital : ℚ) (p : Peak) :
    ∃ p', p.add capital row = .ok p' ∧ p'.cash = p.cash + (row.cash - row.cost) ∧
      ∀ symbol, p'.inventory.getD symbol 0 = p.inventory.getD symbol 0 + net [row] symbol := by
  unfold Peak.add
  by_cases unfilled : row.filled = 0
  · have signed := signed_of_unfilled unfilled
    refine ⟨p, if_pos unfilled, ?_, fun symbol => ?_⟩
    · simp [OrderRow.cash, OrderRow.cost, signed, unfilled]
    · simp [net_eq, signed]
  · obtain ⟨price, known⟩ := Option.isSome_iff_exists.mp (priced unfilled)
    obtain ⟨broker, found, positive⟩ := Option.bind_eq_some_iff.mp known
    have reported : broker.filledAveragePrice = some price := (Option.filter_eq_some_iff.mp positive).1
    have raw : OrderRow.reported row = .ok price := by simp [OrderRow.reported, found, reported]
    rw [if_neg unfilled, raw]
    refine ⟨_, rfl, ?_, fun symbol => ?_⟩
    · cases side : row.side with
      | buy =>
        simp [OrderRow.cash, OrderRow.cost, OrderRow.signed, feeReserve, known, unfilled, side]
        ring
      | sell =>
        simp [OrderRow.cash, OrderRow.cost, OrderRow.signed, feeReserve, known, unfilled, side]
        ring
    · dsimp only
      rw [Dict.getD_set, net_eq]
      by_cases same : row.symbol = symbol
      · simp [same, OrderRow.signed]
      · simp [same]

/-- Orders that are priced are folded, whatever they hold in between. -/
theorem peak_fold (priced : Priced rows) (capital : ℚ) (p : Peak) :
    ∃ p', rows.foldlM (Peak.add capital) p = .ok p' ∧ p'.cash = p.cash + realized rows ∧
      ∀ symbol, p'.inventory.getD symbol 0 = p.inventory.getD symbol 0 + net rows symbol := by
  induction rows generalizing p with
  | nil => exact ⟨p, rfl, by simp [realized], fun symbol => by simp [net_eq]⟩
  | cons row rest ih =>
    obtain ⟨middle, first, cash, held⟩ := peak_add (priced row List.mem_cons_self) capital p
    obtain ⟨p', later, cash', held'⟩ := ih (fun other member => priced other (List.mem_cons_of_mem _ member)) middle
    refine ⟨p', bind_ok_iff.mpr ⟨middle, first, later⟩, ?_, fun symbol => ?_⟩
    · rw [cash', cash]
      simp only [realized, List.map_cons, List.sum_cons]
      ring
    · rw [held', held, net_eq, net_eq, net_eq]
      simp [add_assoc]

theorem flat_net (priced : Priced rows) {start : Peak} (empty : start.inventory = .empty)
    (done : rows.foldlM (Peak.add capital) start = .ok p) (flat : Flat p.inventory) :
    p.cash = start.cash + realized rows ∧ ∀ symbol, net rows symbol = 0 := by
  obtain ⟨p', same, cash, held⟩ := peak_fold priced capital start
  cases same.symm.trans done
  refine ⟨cash, fun symbol => ?_⟩
  have none : p.inventory.getD symbol 0 = 0 := by
    unfold Dict.getD
    cases found : p.inventory.get? symbol with
    | none => rfl
    | some quantity => exact flat quantity (Dict.mem_values.mpr ⟨symbol, found⟩)
  rw [held, empty] at none
  simpa [Dict.getD] using none

/-- The orders an account's risk reads are reported once each. -/
theorem after_distinct (table : OrderTable) (digest : String) (baseline : Option Report) :
    ((table.after digest baseline).map OrderRow.clientOrderId).Nodup := by
  have mine : (((table.rows.filter fun linked => linked.accountDigest = some digest).insertionSort
      LinkedRow.before).map fun linked => linked.row.clientOrderId).Nodup := by
    rw [((List.perm_insertionSort LinkedRow.before _).map _).nodup_iff]
    exact table.distinct.sublist (List.filter_sublist.map _)
  cases baseline with
  | none =>
    unfold OrderTable.after
    rw [List.map_map]
    exact mine
  | some baseline =>
    unfold OrderTable.after
    refine List.Nodup.sublist (List.filter_sublist.map OrderRow.clientOrderId) ?_
    rw [List.map_map]
    exact mine

/-- Orders that could be valued are folded for the peak, and where they leave nothing held both computations of the
equity agree. -/
theorem equity_agrees (table : OrderTable) (digest : String) (baseline : Option Report)
    (valued : equity (table.after digest baseline) marks capital offset = .ok value) (historicalPeak : ℚ) :
    ∃ p, (table.after digest baseline).foldlM (Peak.add capital) { cash := offset, historicalPeak } = .ok p ∧
      (Flat p.inventory → value = capital + p.cash) := by
  have distinct := after_distinct table digest baseline
  have priced := equity_priced distinct valued
  obtain ⟨p, done, -⟩ := peak_fold priced capital { cash := offset, historicalPeak }
  refine ⟨p, done, fun flat => ?_⟩
  obtain ⟨cash, nothing⟩ := flat_net priced rfl done flat
  rw [equity_of_flat distinct valued nothing, cash]

/-! ## What is saved -/

variable {calendar : Calendar} {settings : RiskSettings} {now : Instant} {b b' : RiskTables} {result : RiskResult}

/-- A risk that came after another. -/
structure RiskState.Tightens (s s' : RiskState) : Prop where
  capital : s'.capital = s.capital
  peak : s.peak ≤ s'.peak
  dailyLimit : s'.dailyLimit ≤ s.dailyLimit
  weeklyLimit : s'.weeklyLimit ≤ s.weeklyLimit
  drawdownLimit : s'.drawdownLimit ≤ s.drawdownLimit

theorem RiskState.Tightens.refl (s : RiskState) : s.Tightens s := ⟨rfl, le_rfl, le_rfl, le_rfl, le_rfl⟩

theorem RiskState.Tightens.trans {s s' s'' : RiskState} (one : s.Tightens s') (two : s'.Tightens s'') :
    s.Tightens s'' where
  capital := two.capital.trans one.capital
  peak := one.peak.trans two.peak
  dailyLimit := two.dailyLimit.trans one.dailyLimit
  weeklyLimit := two.weeklyLimit.trans one.weeklyLimit
  drawdownLimit := two.drawdownLimit.trans one.drawdownLimit

theorem merged_tightens (digest : String) (settings : RiskSettings) (s : RiskState) {peak : ℚ} (below : s.peak ≤ peak)
    (now : Instant) : s.Tightens (merged digest settings (some s) s.capital peak now) :=
  ⟨rfl, below, min_le_left _ _, min_le_left _ _, min_le_left _ _⟩

/-- An evaluation saves nothing, or a risk that is tighter than the one that was saved. -/
theorem accountRisk_saves (done : accountRisk calendar settings marks now b = .ok (result, b')) :
    b' = b ∨ ∃ digest state, b' = { b with risks := b.risks.set digest state } ∧
      ∀ s, b.risks.get? digest = some s → s.Tightens state := by
  unfold accountRisk at done
  cases pinned : settings.newsAccountDigest with
  | none =>
    rw [pinned] at done
    cases done
  | some digest =>
    rw [pinned] at done
    dsimp only at done
    split at done
    · cases done
      exact .inl rfl
    · split at done
      next =>
        cases done
        exact .inl rfl
      next =>
        obtain ⟨p, -, done⟩ := bind_ok_iff.mp done
        cases done
        refine .inr ⟨digest, _, rfl, fun s saved => ?_⟩
        rw [saved]
        refine merged_tightens digest settings s ?_ now
        exact (le_max_left _ _).trans ((le_max_left _ _).trans ((le_max_left _ _).trans (le_max_left _ _)))

/-- What changes an account's tables: an evaluation of its risk, or a change of its orders or its baselines. -/
inductive RiskTables.Step (b : RiskTables) : RiskTables → Prop
  | evaluated (calendar : Calendar) (settings : RiskSettings) (marks : Dict String ℚ) (now : Instant)
      {result : RiskResult} {b' : RiskTables}
      (done : accountRisk calendar settings marks now b = .ok (result, b')) : Step b b'
  | recorded (orders : OrderTable) (baselines : Dict String Report) : Step b { b with orders, baselines }

def RiskTables.Reaches : RiskTables → RiskTables → Prop := Relation.ReflTransGen RiskTables.Step

theorem step_tightens (step : b.Step b') {digest : String} {s : RiskState} (saved : b.risks.get? digest = some s) :
    ∃ s', b'.risks.get? digest = some s' ∧ s.Tightens s' := by
  cases step with
  | evaluated calendar settings marks now done =>
    rcases accountRisk_saves done with rfl | ⟨other, state, rfl, tightens⟩
    · exact ⟨s, saved, .refl s⟩
    · by_cases same : other = digest
      · exact ⟨state, by simp [same], tightens s (same ▸ saved)⟩
      · exact ⟨s, by simp [same, saved], .refl s⟩
  | recorded orders baselines => exact ⟨s, saved, .refl s⟩

theorem run_tightens (run : b.Reaches b') {digest : String} {s : RiskState} (saved : b.risks.get? digest = some s) :
    ∃ s', b'.risks.get? digest = some s' ∧ s.Tightens s' := by
  induction run with
  | refl => exact ⟨s, saved, .refl s⟩
  | tail _ step ih =>
    obtain ⟨middle, kept, tightens⟩ := ih
    obtain ⟨s', kept', tightens'⟩ := step_tightens step kept
    exact ⟨s', kept', tightens.trans tightens'⟩

/-- Where an account's orders leave nothing held, its equity by the ledgers is its capital and the cash of the peak;
and whatever is evaluated of it in turn, its peak only rises, its limits only fall and its capital stays. -/
theorem risk_agrees_and_tightens :
    (∀ (table : OrderTable) (digest : String) (baseline : Option Report) (marks : Dict String ℚ)
      (capital value : ℚ),
      equity (table.after digest baseline) marks capital (baseline.elim 0 Report.economicPnl) = .ok value →
      ∃ p, (table.after digest baseline).foldlM (Peak.add capital)
          { cash := baseline.elim 0 Report.economicPnl
            historicalPeak := baseline.elim capital fun baseline => capital + baseline.peakPnl } = .ok p ∧
        (Flat p.inventory → value = capital + p.cash)) ∧
    ∀ (b b' : RiskTables) (digest : String) (s : RiskState), b.Reaches b' → b.risks.get? digest = some s →
      ∃ s', b'.risks.get? digest = some s' ∧ s.Tightens s' :=
  ⟨fun table digest baseline _ _ _ valued => equity_agrees table digest baseline valued _,
    fun _ _ _ _ run saved => run_tightens run saved⟩

theorem oneShare_nonneg : (0 : ℚ) ≤ 1 := zero_le_one

def roundTable : OrderTable where
  rows := [⟨"1", some "account", filledRow "entry" .buy 1 10 oneShare_nonneg "strategy"⟩,
    ⟨"2", some "account", filledRow "exit" .sell 1 11 oneShare_nonneg "strategy"⟩]
  distinct := by decide

def roundSettings : RiskSettings := ⟨some "account", .newsPaper, 100, 1 / 200, 1 / 200, 3 / 200⟩

def roundTables : RiskTables :=
  ⟨roundTable, .empty, Dict.empty.set "account" ⟨"account", 100, 100, 50, 50, 150, 0⟩⟩

/-- A share bought and sold, after which the account's risk is evaluated. -/
theorem risk_agrees_and_tightens_round :
    (∃ p, (roundTable.after "account" none).foldlM (Peak.add 100) { cash := 0, historicalPeak := 100 } = .ok p ∧
      Flat p.inventory ∧ 10098895 / 100000 = 100 + p.cash) ∧
    ∃ result b' s', accountRisk ⟨fun _ => 0, fun day => day⟩ roundSettings .empty 60 roundTables = .ok (result, b') ∧
      b'.risks.get? "account" = some s' ∧ RiskState.Tightens ⟨"account", 100, 100, 50, 50, 150, 0⟩ s' := by
  obtain ⟨agrees, tightens⟩ := risk_agrees_and_tightens
  constructor
  · obtain ⟨p, folded, value⟩ := agrees roundTable "account" none .empty 100 (10098895 / 100000) (by decide +kernel)
    have flat : ((roundTable.after "account" none).foldlM (Peak.add 100) { cash := 0, historicalPeak := 100 }).map
        (fun p => decide (Flat p.inventory)) = .ok true := by decide +kernel
    have same : (roundTable.after "account" none).foldlM (Peak.add 100) { cash := 0, historicalPeak := 100 } =
        .ok p := folded
    rw [same] at flat
    have nothing : Flat p.inventory := by simpa [Except.map] using flat
    exact ⟨p, folded, nothing, value nothing⟩
  · have valued : (accountRisk ⟨fun _ => 0, fun day => day⟩ roundSettings .empty 60 roundTables).isOk = true := by
      decide +kernel
    cases done : accountRisk ⟨fun _ => 0, fun day => day⟩ roundSettings .empty 60 roundTables with
    | error fault => simp [done, Except.isOk, Except.toBool] at valued
    | ok ran =>
      obtain ⟨result, b'⟩ := ran
      obtain ⟨s', kept, later⟩ := tightens roundTables b' "account" ⟨"account", 100, 100, 50, 50, 150, 0⟩
        (.single (.evaluated _ _ _ _ done)) rfl
      exact ⟨result, b', s', rfl, kept, later⟩

end TradeAgent.Event.AccountRisk
