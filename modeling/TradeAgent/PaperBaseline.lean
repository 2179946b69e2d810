import TradeAgent.AccountHistory

/-! The baseline of an account: the preview of an import, and the import. -/
namespace TradeAgent.Event.AccountHistory

/-! ## The paper account -/

/-- The budget of a session as it is stored, with the account and the day it says it is of. -/
structure BudgetRow where
  accountDigest : String
  plannedSessionDate : ℤ
  totalEntriesReserved : ℤ := 0
  newsEntriesReserved : ℤ := 0
  equipmentClientOrderId : Option String := none
  equipmentCohortId : Option String := none
  scheduledRequestId : Option String := none
  externalBuyClientIds : Option (List String) := none
  deriving DecidableEq

/-- What an import writes beside the tables. -/
inductive Audit where
  | budgetCorrection (session : Session) (historyIdentity : String) (before after : BudgetRow) (added : List String)
  | baseline (report : Report)

/-- The tables of an account's state; the key of a session's row hashes the account and the day. -/
structure PaperState where
  orders : List EventOrder
  baselines : Dict String Report
  budgets : Dict Session BudgetRow
  audits : List Audit

def emptySessionBudget (digest : String) (sessionDate : ℤ) : BudgetRow where
  accountDigest := digest
  plannedSessionDate := sessionDate

/-- A budget must be that of the session it is stored for. -/
def checkIdentity (digest : String) (sessionDate : ℤ) (budget : BudgetRow) : Except Fault Unit :=
  refuse "persisted practice session identity mismatch"
    (budget.accountDigest ≠ digest ∨ budget.plannedSessionDate ≠ sessionDate)

def PaperState.lockedSessionBudget (s : PaperState) (digest : String) (sessionDate : ℤ) :
    Except Fault (PaperState × BudgetRow) := do
  let s := { s with budgets := s.budgets.setDefault ⟨digest, sessionDate⟩ (emptySessionBudget digest sessionDate) }
  let budget := s.budgets.getD ⟨digest, sessionDate⟩ (emptySessionBudget digest sessionDate)
  checkIdentity digest sessionDate budget
  return (s, budget)

def PaperState.saveSessionBudget (s : PaperState) (budget : BudgetRow) : PaperState :=
  { s with budgets := s.budgets.modify ⟨budget.accountDigest, budget.plannedSessionDate⟩ fun _ => budget }

/-- The orders of an account. -/
def PaperState.linked (s : PaperState) (digest : String) : List EventOrder :=
  s.orders.filter fun row => row.link.accountDigest = some digest

/-- The BUYs that no local order made. -/
def external (identities localIds : List String) : List String :=
  (identities.filter (· ∉ localIds)).dedup.insertionSort (· ≤ ·)

/-- What is left out of a valued history, or is changed in it. -/
def Report.Rewrites (report old : Report) : Prop :=
  let timeline := Dict.ofList (report.timeline.map fun row => (row.id, row))
  (∃ id ∈ old.brokerOrderIds, id ∉ report.brokerOrderIds) ∨ ∃ row ∈ old.timeline, timeline.get? row.id ≠ some row

instance (report old : Report) : Decidable (report.Rewrites old) :=
  inferInstanceAs (Decidable ((∃ id ∈ old.brokerOrderIds, id ∉ report.brokerOrderIds) ∨ ∃ row ∈ old.timeline,
    (Dict.ofList (report.timeline.map fun row => (row.id, row))).get? row.id ≠ some row))

/-- The local orders must be final, and in the history where the broker has them. -/
def checkLinked (linked : List EventOrder) (report : Report) : Except Fault Unit := do
  refuse "unresolved local history blocks baseline" (∃ row ∈ linked, ¬row.status.concluded)
  refuse "broker snapshot omits retained OMS history"
    (∃ row ∈ linked, ∃ id ∈ row.brokerOrderId, id ≠ "" ∧ id ∉ report.brokerOrderIds)

/-! ## Saving -/

def checkOld (report : Report) (old : Option Report) : Except Fault Unit :=
  match old with
  | none => .ok ()
  | some old => do
    refuse "cannot replace a newer account baseline" (report.observedAt < old.observedAt)
    refuse "baseline cannot discard or rewrite previously valued history" (report.Rewrites old)

def BudgetRow.previous (budget : BudgetRow) : List String := budget.externalBuyClientIds.getD []

/-- The budget after the BUYs that were made elsewhere. -/
def BudgetRow.counted (budget : BudgetRow) (external : List String) : BudgetRow :=
  { budget with
    totalEntriesReserved := budget.totalEntriesReserved + (external.filter (· ∉ budget.previous)).length
    externalBuyClientIds := some external }

/-- A correction is audited where it changes the budget. -/
def PaperState.audited (s : PaperState) (report : Report) (day : ℤ) (before after : BudgetRow) (added : List String) :
    PaperState :=
  if before = after then s
  else { s with audits := s.audits ++
    [.budgetCorrection ⟨report.accountDigest, day⟩ report.identity before after added] }

/-- Counts the BUYs of a day that were made elsewhere. -/
def PaperState.countBuys (report : Report) (localIds : List String) (s : PaperState) (buys : ℤ × List String) :
    Except Fault PaperState := do
  let (s, budget) ← s.lockedSessionBudget report.accountDigest buys.1
  let external := external buys.2 localIds
  refuse "history cannot remove previously counted BUY attempts" (∃ id ∈ budget.previous, id ∉ external)
  let after := budget.counted external
  return (s.saveSessionBudget after).audited report buys.1 budget after (external.filter (· ∉ budget.previous))

variable (platform : Platform)

def saveBaseline (s : PaperState) (history : History) (now : Instant) : Except Fault (PaperState × Report) := do
  let report ← valueHistory platform history
  refuse "fresh history baseline required" (¬(0 ≤ now - report.observedAt ∧ now - report.observedAt ≤ 60 * second))
  checkOld report (s.baselines.get? report.accountDigest)
  let linked := s.linked report.accountDigest
  checkLinked linked report
  let s ← report.buyClientIds.entries.foldlM (PaperState.countBuys report (linked.map EventOrder.clientOrderId)) s
  return ({ s with
    baselines := s.baselines.set report.accountDigest report
    audits := s.audits ++ [.baseline report] }, report)

/-! ## The preview -/

structure Correction where
  sessionDate : ℤ
  rowExisted : Bool
  before : BudgetRow
  proposedAfter : BudgetRow
  added : List String

structure Preview where
  observedAt : Instant
  historyIdentity : String
  historyObservedAt : Instant
  accountDigest : String
  cashPnl : ℚ
  economicPnl : ℚ
  peakPnl : ℚ
  budgetCorrections : List Correction

/-- The timestamps an order has. -/
def HistoryOrder.timestamps (order : HistoryOrder) : List Moment :=
  order.createdAt ::
    [order.submittedAt, order.updatedAt, order.filledAt, order.canceledAt, order.expiredAt].reduceOption

/-- What a day's BUYs would change. -/
def PaperState.correction (s : PaperState) (report : Report) (localIds : List String) (buys : ℤ × List String) :
    Except Fault Correction := do
  let raw := s.budgets.get? ⟨report.accountDigest, buys.1⟩
  let before := raw.getD (emptySessionBudget report.accountDigest buys.1)
  checkIdentity report.accountDigest buys.1 before
  let previous := before.externalBuyClientIds.getD []
  let external := external buys.2 localIds
  refuse "history cannot remove previously counted BUY attempts" (∃ id ∈ previous, id ∉ external)
  let added := external.filter (· ∉ previous)
  return {
    sessionDate := buys.1
    rowExisted := raw.isSome
    before
    proposedAfter := { before with
      totalEntriesReserved := before.totalEntriesReserved + added.length
      externalBuyClientIds := some external }
    added }

def previewOld (report : Report) (old : Option Report) : Except Fault Unit :=
  match old with
  | none => .ok ()
  | some old => refuse "baseline cannot discard or rewrite previously valued history"
      (report.observedAt < old.observedAt ∨ report.Rewrites old)

def previewBaseline (s : PaperState) (history : History) (now : Instant) : Except Fault Preview := do
  let report ← valueHistory platform history
  refuse "fresh history baseline required" (¬(0 ≤ now - report.observedAt ∧ now - report.observedAt ≤ 60 * second))
  history.orders.forM fun order => order.timestamps.forM fun moment => do
    let at_ ← stamp moment
    refuse "future broker order history" (report.observedAt < at_)
  previewOld report (s.baselines.get? report.accountDigest)
  let linked := s.linked report.accountDigest
  checkLinked linked report
  let corrections ←
    report.buyClientIds.entries.mapM (s.correction report (linked.map EventOrder.clientOrderId))
  return {
    observedAt := now
    historyIdentity := report.identity
    historyObservedAt := report.observedAt
    accountDigest := report.accountDigest
    cashPnl := report.cashPnl
    economicPnl := report.economicPnl
    peakPnl := report.peakPnl
    budgetCorrections := corrections }

/-! ## The import writes what the preview proposed -/

variable {platform : Platform} {s s' : PaperState} {history : History} {now : Instant} {report : Report}

/-- What a correction writes. -/
def PaperState.take (report : Report) (s : PaperState) (c : Correction) : PaperState :=
  PaperState.audited { s with budgets := s.budgets.set ⟨report.accountDigest, c.sessionDate⟩ c.proposedAfter }
    report c.sessionDate c.before c.proposedAfter c.added

theorem checkIdentity_ok {digest : String} {date : ℤ} {budget : BudgetRow} {done : Unit} :
    checkIdentity digest date budget = .ok done ↔ budget.accountDigest = digest ∧ budget.plannedSessionDate = date := by
  unfold checkIdentity
  rw [refuse_ok, not_or, not_not, not_not]

/-- A budget that is locked is the stored one, or an empty one that is stored then. -/
theorem locked_budget (s : PaperState) (digest : String) (date : ℤ) :
    (s.budgets.setDefault ⟨digest, date⟩ (emptySessionBudget digest date)).get? ⟨digest, date⟩ =
      some ((s.budgets.get? ⟨digest, date⟩).getD (emptySessionBudget digest date)) := by
  rw [Dict.get?_setDefault]
  cases s.budgets.get? ⟨digest, date⟩ <;> simp

/-- A budget that was locked is replaced by what is saved of it. -/
theorem saved_budget {digest : String} {date : ℤ} {budget : BudgetRow} (account : budget.accountDigest = digest)
    (day : budget.plannedSessionDate = date) (s : PaperState) :
    PaperState.saveSessionBudget
      { s with budgets := s.budgets.setDefault ⟨digest, date⟩ (emptySessionBudget digest date) } budget =
      { s with budgets := s.budgets.set ⟨digest, date⟩ budget } := by
  unfold PaperState.saveSessionBudget
  rw [account, day, Dict.modify_of_get (locked_budget s digest date), Dict.setDefault_set]

/-- A day's budget is corrected as the preview of it says. -/
theorem countBuys_eq (s : PaperState) (localIds : List String) (buys : ℤ × List String) :
    s.countBuys report localIds buys = (s.correction report localIds buys).map (s.take report) := by
  obtain ⟨day, identities⟩ := buys
  have locked := locked_budget s report.accountDigest day
  unfold PaperState.countBuys PaperState.lockedSessionBudget PaperState.correction Dict.getD
  dsimp only
  rw [locked, Option.getD_some]
  generalize kept : (s.budgets.get? ⟨report.accountDigest, day⟩).getD (emptySessionBudget report.accountDigest day) =
    budget
  cases checked : checkIdentity report.accountDigest day budget with
  | error fault => rfl
  | ok _ =>
    obtain ⟨account, date⟩ := checkIdentity_ok.mp checked
    have saved := @saved_budget _ _ (budget.counted (external identities localIds)) account date s
    unfold BudgetRow.previous
    cases refused : refuse "history cannot remove previously counted BUY attempts"
        (∃ id ∈ budget.externalBuyClientIds.getD [], id ∉ external identities localIds) with
    | error fault =>
      show (refuse _ _ >>= fun _ => _) = _
      rw [refused]
      rfl
    | ok _ =>
      show (refuse _ _ >>= fun _ => _) = _
      rw [refused]
      have done := congrArg (fun saved : PaperState => (Except.ok (saved.audited report day budget
        (budget.counted (external identities localIds))
        ((external identities localIds).filter (· ∉ budget.previous))) : Except Fault PaperState)) saved
      exact done

/-- A correction depends on the row of its session only. -/
theorem correction_take (s : PaperState) (localIds : List String) (c : Correction) {buys : ℤ × List String}
    (other : buys.1 ≠ c.sessionDate) :
    (s.take report c).correction report localIds buys = s.correction report localIds buys := by
  have same : (s.take report c).budgets.get? ⟨report.accountDigest, buys.1⟩ =
      s.budgets.get? ⟨report.accountDigest, buys.1⟩ := by
    have apart : (⟨report.accountDigest, c.sessionDate⟩ : Session) ≠ ⟨report.accountDigest, buys.1⟩ :=
      fun equal => other (congrArg Session.sessionDate equal).symm
    unfold PaperState.take PaperState.audited
    split <;> simp [apart]
  unfold PaperState.correction
  rw [same]

theorem correction_date {localIds : List String} {buys : ℤ × List String} {c : Correction}
    (done : s.correction report localIds buys = .ok c) : c.sessionDate = buys.1 := by
  obtain ⟨_, -, done⟩ := bind_ok_iff.mp done
  obtain ⟨_, -, done⟩ := bind_ok_iff.mp done
  cases done
  rfl

/-- Days are corrected one after the other as they are proposed side by side. -/
theorem foldlM_countBuys (localIds : List String) (days : List (ℤ × List String))
    (distinct : (days.map Prod.fst).Nodup) (s : PaperState) :
    days.foldlM (PaperState.countBuys report localIds) s =
      (days.mapM (s.correction report localIds)).map fun cs => cs.foldl (PaperState.take report) s := by
  induction days generalizing s with
  | nil => rfl
  | cons buys rest ih =>
    rw [List.map_cons, List.nodup_cons] at distinct
    rw [List.foldlM_cons, countBuys_eq, List.mapM_cons]
    cases proposed : s.correction report localIds buys with
    | error fault => rfl
    | ok c =>
      have later : rest.mapM ((s.take report c).correction report localIds) =
          rest.mapM (s.correction report localIds) := by
        refine mapM_congr fun other member => correction_take s localIds c fun same => distinct.1 ?_
        rw [← correction_date proposed, ← same]
        exact List.mem_map_of_mem member
      show (rest.foldlM (PaperState.countBuys report localIds) (s.take report c)) = _
      rw [ih distinct.2, later]
      cases rest.mapM (s.correction report localIds) <;> rfl

/-- Each of an order's timestamps is an instant, and not in the future. -/
def HistoryOrder.Timely (observed : Instant) (order : HistoryOrder) : Prop :=
  ∀ moment ∈ order.timestamps, ∃ at_ ≤ observed, stamp moment = .ok at_

theorem timely_iff {orders : List HistoryOrder} {observed : Instant} :
    (orders.forM fun order => order.timestamps.forM fun moment => do
      let at_ ← stamp moment
      refuse "future broker order history" (observed < at_)) = .ok () ↔ ∀ order ∈ orders, order.Timely observed := by
  rw [forM_ok_iff]
  refine forall₂_congr fun order _ => ?_
  rw [forM_ok_iff]
  refine forall₂_congr fun moment _ => ?_
  rw [bind_ok_iff]
  exact exists_congr fun at_ => by rw [refuse_ok, not_lt, and_comm]

theorem previewOld_iff (report : Report) (old : Option Report) :
    previewOld report old = .ok () ↔ checkOld report old = .ok () := by
  cases old with
  | none => exact .rfl
  | some old =>
    unfold previewOld checkOld
    simp only [bind_ok_iff, refuse_ok]
    by_cases newer : report.observedAt < old.observedAt <;> simp [newer]

/-- The import writes the baseline and the budgets that the preview proposed, and no other. -/
structure Writes (s s' : PaperState) (p : Preview) (report : Report) : Prop where
  identity : report.identity = p.historyIdentity
  observedAt : report.observedAt = p.historyObservedAt
  accountDigest : report.accountDigest = p.accountDigest
  pnl : report.cashPnl = p.cashPnl ∧ report.economicPnl = p.economicPnl ∧ report.peakPnl = p.peakPnl
  baselines : s'.baselines = s.baselines.set p.accountDigest report
  budgets : s'.budgets =
    s.budgets.update (p.budgetCorrections.map fun c => (⟨p.accountDigest, c.sessionDate⟩, c.proposedAfter))
  before : ∀ c ∈ p.budgetCorrections,
    c.before = s.budgets.getD ⟨p.accountDigest, c.sessionDate⟩ (emptySessionBudget p.accountDigest c.sessionDate)
  orders : s'.orders = s.orders

theorem take_budgets (report : Report) (s : PaperState) (cs : List Correction) :
    (cs.foldl (PaperState.take report) s).budgets =
      s.budgets.update (cs.map fun c => (⟨report.accountDigest, c.sessionDate⟩, c.proposedAfter)) ∧
    (cs.foldl (PaperState.take report) s).orders = s.orders ∧
    (cs.foldl (PaperState.take report) s).baselines = s.baselines := by
  induction cs generalizing s with
  | nil => exact ⟨rfl, rfl, rfl⟩
  | cons c rest ih =>
    have one : (s.take report c).budgets = s.budgets.set ⟨report.accountDigest, c.sessionDate⟩ c.proposedAfter ∧
        (s.take report c).orders = s.orders ∧ (s.take report c).baselines = s.baselines := by
      unfold PaperState.take PaperState.audited
      split <;> exact ⟨rfl, rfl, rfl⟩
    obtain ⟨budgets, orders, baselines⟩ := ih (s.take report c)
    rw [List.foldl_cons, budgets, orders, baselines, one.1, one.2.1, one.2.2]
    exact ⟨rfl, rfl, rfl⟩

theorem correction_before {localIds : List String} {buys : ℤ × List String} {c : Correction}
    (done : s.correction report localIds buys = .ok c) :
    c.before = s.budgets.getD ⟨report.accountDigest, c.sessionDate⟩
      (emptySessionBudget report.accountDigest c.sessionDate) := by
  obtain ⟨_, -, done⟩ := bind_ok_iff.mp done
  obtain ⟨_, -, done⟩ := bind_ok_iff.mp done
  cases done
  rfl

theorem mapM_ok {α β ε : Type} {f : α → Except ε β} {l : List α} {bs : List β} (done : l.mapM f = .ok bs) :
    ∀ b ∈ bs, ∃ a ∈ l, f a = .ok b := by
  induction l generalizing bs with
  | nil =>
    cases done
    simp
  | cons a rest ih =>
    rw [List.mapM_cons] at done
    obtain ⟨b, first, done⟩ := bind_ok_iff.mp done
    obtain ⟨others, later, done⟩ := bind_ok_iff.mp done
    cases done
    intro c member
    rcases List.mem_cons.mp member with rfl | member
    · exact ⟨a, List.mem_cons_self, first⟩
    · obtain ⟨a', listed, found⟩ := ih later c member
      exact ⟨a', List.mem_cons_of_mem a listed, found⟩

/-- What it takes to import a baseline: corrections that are proposed for all its days. -/
theorem saveBaseline_iff : saveBaseline platform s history now = .ok (s', report) ↔
    valueHistory platform history = .ok report ∧
      (0 ≤ now - report.observedAt ∧ now - report.observedAt ≤ 60 * second) ∧
      checkOld report (s.baselines.get? report.accountDigest) = .ok () ∧
      checkLinked (s.linked report.accountDigest) report = .ok () ∧
      ∃ cs, report.buyClientIds.entries.mapM
          (s.correction report ((s.linked report.accountDigest).map EventOrder.clientOrderId)) = .ok cs ∧
        s' = { cs.foldl (PaperState.take report) s with
          baselines := s.baselines.set report.accountDigest report
          audits := (cs.foldl (PaperState.take report) s).audits ++ [.baseline report] } := by
  unfold saveBaseline
  simp only [bind_ok_iff, refuse_ok, not_not]
  constructor
  · rintro ⟨found, valued, _, fresh, _, old, _, linked, next, counted, done⟩
    rw [foldlM_countBuys _ _ found.buyClientIds.distinct] at counted
    cases proposed : found.buyClientIds.entries.mapM
        (s.correction found ((s.linked found.accountDigest).map EventOrder.clientOrderId)) with
    | error fault =>
      rw [proposed] at counted
      cases counted
    | ok cs =>
      rw [proposed] at counted
      cases counted
      cases done
      exact ⟨valued, fresh, old, linked, cs, proposed, by rw [(take_budgets _ _ _).2.2]⟩
  · rintro ⟨valued, fresh, old, linked, cs, proposed, rfl⟩
    refine ⟨report, valued, (), fresh, (), old, (), linked, cs.foldl (PaperState.take report) s, ?_, ?_⟩
    · rw [foldlM_countBuys _ _ report.buyClientIds.distinct, proposed]
      rfl
    · rw [(take_budgets _ _ _).2.2]
      rfl

theorem previewBaseline_iff {p : Preview} : previewBaseline platform s history now = .ok p ↔
    ∃ report, valueHistory platform history = .ok report ∧
      (0 ≤ now - report.observedAt ∧ now - report.observedAt ≤ 60 * second) ∧
      (∀ order ∈ history.orders, order.Timely report.observedAt) ∧
      checkOld report (s.baselines.get? report.accountDigest) = .ok () ∧
      checkLinked (s.linked report.accountDigest) report = .ok () ∧
      ∃ cs, report.buyClientIds.entries.mapM
          (s.correction report ((s.linked report.accountDigest).map EventOrder.clientOrderId)) = .ok cs ∧
        p = ⟨now, report.identity, report.observedAt, report.accountDigest, report.cashPnl, report.economicPnl,
          report.peakPnl, cs⟩ := by
  unfold previewBaseline
  simp only [bind_ok_iff, refuse_ok, not_not]
  constructor
  · rintro ⟨report, valued, _, fresh, _, timely, _, old, _, linked, cs, proposed, done⟩
    cases done
    exact ⟨report, valued, fresh, timely_iff.mp timely, (previewOld_iff _ _).mp old, linked, cs, proposed, rfl⟩
  · rintro ⟨report, valued, fresh, timely, old, linked, cs, proposed, rfl⟩
    exact ⟨report, valued, (), fresh, (), timely_iff.mpr timely, (), (previewOld_iff _ _).mpr old, (), linked, cs,
      proposed, rfl⟩

theorem writes {cs : List Correction} (proposed : report.buyClientIds.entries.mapM
    (s.correction report ((s.linked report.accountDigest).map EventOrder.clientOrderId)) = .ok cs) :
    Writes s
      { cs.foldl (PaperState.take report) s with
        baselines := s.baselines.set report.accountDigest report
        audits := (cs.foldl (PaperState.take report) s).audits ++ [.baseline report] }
      ⟨now, report.identity, report.observedAt, report.accountDigest, report.cashPnl, report.economicPnl,
        report.peakPnl, cs⟩ report where
  identity := rfl
  observedAt := rfl
  accountDigest := rfl
  pnl := ⟨rfl, rfl, rfl⟩
  baselines := rfl
  budgets := (take_budgets report s cs).1
  before c member := by
    obtain ⟨buys, -, done⟩ := mapM_ok proposed c member
    exact correction_before done
  orders := (take_budgets report s cs).2.1

/-- The preview and the import of a baseline agree: what is previewed is imported as it was proposed, and what is
imported, none of its orders in the future, is previewed so. -/
theorem preview_agrees (platform : Platform) (s : PaperState) (history : History) (now : Instant) :
    (∀ p, previewBaseline platform s history now = .ok p → ∃ s' report,
      saveBaseline platform s history now = .ok (s', report) ∧ Writes s s' p report) ∧
    ∀ s' report, saveBaseline platform s history now = .ok (s', report) →
      (∀ order ∈ history.orders, order.Timely report.observedAt) →
      ∃ p, previewBaseline platform s history now = .ok p ∧ Writes s s' p report := by
  refine ⟨fun p previewed => ?_, fun s' report saved timely => ?_⟩
  · obtain ⟨report, valued, fresh, -, old, linked, cs, proposed, rfl⟩ := previewBaseline_iff.mp previewed
    exact ⟨_, report, saveBaseline_iff.mpr ⟨valued, fresh, old, linked, cs, proposed, rfl⟩, writes proposed⟩
  · obtain ⟨valued, fresh, old, linked, cs, proposed, rfl⟩ := saveBaseline_iff.mp saved
    exact ⟨_, previewBaseline_iff.mpr ⟨report, valued, fresh, timely, old, linked, cs, proposed, rfl⟩, writes proposed⟩

def noAccount : PaperState := ⟨[], .empty, .empty, []⟩

theorem preview_agrees_round : ∃ p s' report,
    previewBaseline roundCalendar noAccount roundHistory 20 = .ok p ∧
      saveBaseline roundCalendar noAccount roundHistory 20 = .ok (s', report) ∧
      Writes noAccount s' p report ∧
      p.budgetCorrections.map (fun c => (c.sessionDate, c.proposedAfter.totalEntriesReserved, c.added)) =
        [(0, 1, ["entry"])] := by
  have proposed : (previewBaseline roundCalendar noAccount roundHistory 20).map (fun p =>
      p.budgetCorrections.map fun c => (c.sessionDate, c.proposedAfter.totalEntriesReserved, c.added)) =
        .ok [(0, 1, ["entry"])] := by decide +kernel
  cases previewed : previewBaseline roundCalendar noAccount roundHistory 20 with
  | error fault => simp [previewed, Except.map] at proposed
  | ok p =>
    obtain ⟨s', report, saved, writes⟩ := (preview_agrees roundCalendar noAccount roundHistory 20).1 p previewed
    exact ⟨p, s', report, rfl, saved, writes, by simpa [previewed, Except.map] using proposed⟩

end TradeAgent.Event.AccountHistory
