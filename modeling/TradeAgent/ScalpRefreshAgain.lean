import TradeAgent.ScalpForeignDebits
import TradeAgent.ScalpOwnershipChain

/-! A refresh that follows another at once, with nothing changed but what the first one wrote. The
foreign evidence is accounted for already; the cycles settle as they did, but for the few that the
first refresh has only then made ready to settle. -/
namespace TradeAgent.Scalp

/-- What such a refresh reads: the cycles left active, of the closed ones those that are asked for,
and the account as it was saved. -/
def Reading.again (r : Reading) (p : Projection) (asked : OwnedCycle → Bool) : Reading :=
  { r with
    cycles := p.cycles.filter fun c => !c.state.closed || asked c
    account := { r.account with
      unownedPositions := p.unownedPositions
      foreignEvidence := p.foreignEvidence
      ownershipPositions := p.ownershipPositions } }

/-- The cycles of a refresh, with what its first pass establishes of each. -/
def established (r : Reading) : List (OwnedCycle × Fact) :=
  facts r (externalInventoryDebits r)
    (.ofList ((externalInventoryDebits r).entries.map fun e => (e.1, e.2.disposal)))
    (byCreation r.cycles)

/-- Whether the activities are read up to the positions. -/
def evidenceIsReady (r : Reading) : Bool := (evidenceReady r).toOption.getD false

/-- The position is what is protected and what the cycles' bounds leave, exactly. -/
def jointly (r : Reading) (p : Projection) (symbol : String) : Bool :=
  evidenceIsReady r && r.positions.getD symbol 0 =
    p.unownedPositions.getD symbol 0 + totalOf Fact.upper (established r) symbol

def unprotected (r : Reading) (p : Projection) (symbol : String) : ℚ :=
  match r.positions.get? symbol with
  | some value => positive (value - p.unownedPositions.getD symbol 0)
  | none => 0

theorem unprotected_nonneg (r : Reading) (p : Projection) (symbol : String) : 0 ≤ unprotected r p symbol := by
  unfold unprotected
  split
  next => exact positive_nonneg _
  next => exact le_rfl

/-- What a refresh that protects for no entry writes. -/
structure Projected (r : Reading) (now : Instant) (p : Projection) : Prop where
  unowned symbol : p.unownedPositions.get? symbol = if symbol ∈ debitSymbols r then
    (protection r (externalInventoryDebits r) (established r) (evidenceIsReady r) symbol).quantity else none
  evidence symbol : p.foreignEvidence.get? symbol = if symbol ∈ debitSymbols r then
    (protection r (externalInventoryDebits r) (established r) (evidenceIsReady r) symbol).evidence else none
  cycles : settleAll r now (evidenceIsReady r) (externalInventoryDebits r) (p.unownedPositions.getD · 0)
    (jointly r p) (unprotected r p) (established r) = .ok p.cycles

theorem mem_debits_keys {r : Reading} {symbol : String} :
    symbol ∈ (externalInventoryDebits r).keys ↔ symbol ∈ debitSymbols r := by
  rw [← not_iff_not, ← Dict.get?_none_iff, externalInventoryDebits_get?]
  split
  next member => simp [member]
  next absent => simp [absent]

theorem project_projected {r : Reading} {now : Instant} {p : Projection}
    (plain : r.protectBeforeBuy = none) (done : project r now = .ok p) : Projected r now p := by
  unfold project at done
  cases found : evidenceReady r with
  | error e => rw [found] at done; cases done
  | ok ready =>
    have known : evidenceIsReady r = ready := by
      rw [evidenceIsReady, found]
      rfl
    simp only [found, bind, Except.bind, pure, Except.pure] at done
    split at done
    next => cases done
    next cycles settled =>
      cases done
      have distinct : (externalInventoryDebits r).keys.Nodup := (externalInventoryDebits r).distinct
      have symbols : protectedSymbols r (externalInventoryDebits r) = (externalInventoryDebits r).keys := by
        rw [protectedSymbols, plain, Option.toList_none, List.append_nil]
        exact List.dedup_eq_self.mpr distinct
      subst known
      refine ⟨fun symbol => ?_, fun symbol => ?_, settled⟩
      · refine (Dict.get?_ofFilterMap ?_ _ symbol).trans ?_
        · rw [symbols]
          exact distinct
        · rw [symbols]
          simp only [mem_debits_keys]
          rfl
      · refine (Dict.get?_ofFilterMap distinct _ symbol).trans ?_
        simp only [mem_debits_keys]
        rfl

section protections

variable {p : Protection} {d : Debit}

/-- Whatever is given back or reserved of a symbol, its totals stay those of its debit. -/
structure Protection.Of (p : Protection) (d : Debit) (quantity : ℚ) (e : Evidence) (credit : ℚ) : Prop where
  held : p.quantity = some quantity
  stored : p.evidence = some e
  provisional : e.provisionalReduction = some credit
  quantityNonneg : 0 ≤ quantity
  creditNonneg : 0 ≤ credit
  buys : e.buys = d.evidence.buys
  sells : e.sells = d.evidence.sells
  fees : e.fees = d.evidence.fees

def Protection.Traces (p : Protection) (d : Debit) : Prop := ∃ quantity e credit, p.Of d quantity e credit

theorem externalDebit_traces (account : AccountState) (symbol : String) (rows : List Activity) :
    Protection.Traces ⟨some (externalDebit account symbol rows).quantity,
      some (externalDebit account symbol rows).evidence⟩ (externalDebit account symbol rows) := by
  refine ⟨_, _, _, rfl, rfl, rfl, positive_nonneg _, ?_, rfl, rfl, rfl⟩
  exact sub_nonneg.mpr (min_le_left _ _)

theorem Protection.Traces.restore (traces : p.Traces d) (room : ℚ) : (restoreCredit room p).Traces d := by
  obtain ⟨quantity, e, credit, of⟩ := traces
  unfold restoreCredit
  rw [of.stored]
  dsimp only
  split
  next =>
    refine ⟨_, _, 0, rfl, rfl, rfl, ?_, le_rfl, of.buys, of.sells, of.fees⟩
    rw [Protection.amount, of.held, of.provisional]
    exact add_nonneg of.quantityNonneg of.creditNonneg
  next => exact ⟨quantity, e, credit, of⟩

theorem Protection.Traces.reduce (traces : p.Traces d) {reduction quantity : ℚ} (reduces : 0 ≤ reduction)
    (nonneg : 0 ≤ quantity) : (p.reduce reduction quantity).Traces d := by
  obtain ⟨_, e, credit, of⟩ := traces
  refine ⟨quantity, { e with provisionalReduction := some (credit + reduction) }, credit + reduction, rfl,
    ?_, rfl, nonneg, add_nonneg of.creditNonneg reduces, of.buys, of.sells, of.fees⟩
  simp only [Protection.reduce, of.stored, Option.map_some, of.provisional, Option.getD_some]

theorem Protection.Traces.surplus (traces : p.Traces d) (r : Reading) (known : List (OwnedCycle × Fact))
    (symbol : String) : (protectSurplus r known symbol p).Traces d := by
  have amount : 0 ≤ p.amount := by
    obtain ⟨quantity, e, credit, of⟩ := traces
    rw [Protection.amount, of.held]
    exact of.quantityNonneg
  unfold protectSurplus
  dsimp only
  split
  next =>
    split
    next short => exact traces.reduce (sub_nonneg.mpr short.2.le) short.1
    next => exact traces
  next =>
    split
    next surplus =>
      refine traces.reduce (positive_nonneg _) ?_
      split
      next => exact le_min surplus.1 amount
      next => exact surplus.1
    next => exact traces

theorem protection_traces (r : Reading) (known : List (OwnedCycle × Fact)) (ready : Bool) {symbol : String}
    (member : symbol ∈ debitSymbols r) :
    (protection r (externalInventoryDebits r) known ready symbol).Traces
      (externalDebit r.account symbol (visible r symbol)) := by
  have traces := externalDebit_traces r.account symbol (visible r symbol)
  unfold protection
  rw [externalInventoryDebits_get?, if_pos member]
  dsimp only
  split
  next =>
    split
    next => exact (traces.restore _).surplus r known symbol
    next => exact traces.restore _
  next => exact traces

end protections

section debits

variable {r : Reading} {p : Projection} {now : Instant} {asked : OwnedCycle → Bool}
variable {symbol : String}

@[simp] theorem again_orders : (r.again p asked).orders = r.orders := rfl

@[simp] theorem again_positions : (r.again p asked).positions = r.positions := rfl

theorem again_visible : visible (r.again p asked) symbol = visible r symbol := rfl

/-- The debit of a symbol whose activity its evidence already accounts for. -/
theorem externalDebit_accountedFor {account : AccountState} {rows : List Activity} {quantity credit : ℚ}
    {e : Evidence} (held : account.unownedPositions.getD symbol 0 = quantity)
    (stored : account.foreignEvidence.get? symbol = some e) (provisional : e.provisionalReduction = some credit)
    (quantityNonneg : 0 ≤ quantity) (creditNonneg : 0 ≤ credit)
    (buys : (foreignTotals rows).buys ≤ e.buys) (sells : (foreignTotals rows).sells ≤ e.sells)
    (fees : (foreignTotals rows).fees ≤ e.fees) :
    externalDebit account symbol rows = ⟨quantity, { e with newBuys := 0 }, 0, false⟩ := by
  have newBuys : positive ((foreignTotals rows).buys - e.buys) = 0 := max_eq_left (sub_nonpos.mpr buys)
  have newSells : positive ((foreignTotals rows).sells - e.sells) = 0 := max_eq_left (sub_nonpos.mpr sells)
  have newFees : positive ((foreignTotals rows).fees - e.fees) = 0 := max_eq_left (sub_nonpos.mpr fees)
  have negative : positive (-quantity) = 0 := max_eq_left (neg_nonpos.mpr quantityNonneg)
  unfold externalDebit
  simp only [held, stored, Option.getD_some, provisional, newBuys, newSells, newFees, min_eq_right creditNonneg,
    max_eq_left buys, max_eq_left sells, max_eq_left fees, add_zero, sub_zero, sub_self, zero_sub,
    positive_of_nonneg quantityNonneg, negative, lt_irrefl, decide_false, Bool.false_and, Bool.or_false,
    ne_eq, not_true_eq_false]

/-- What is stored of a symbol's protection. -/
theorem Projected.traces (projected : Projected r now p) (member : symbol ∈ debitSymbols r) :
    ∃ quantity e credit, Protection.Of ⟨p.unownedPositions.get? symbol, p.foreignEvidence.get? symbol⟩
      (externalDebit r.account symbol (visible r symbol)) quantity e credit := by
  obtain ⟨quantity, e, credit, of⟩ := protection_traces r (established r) (evidenceIsReady r) member
  refine ⟨quantity, e, credit, ?_, ?_, of.provisional, of.quantityNonneg, of.creditNonneg, of.buys,
    of.sells, of.fees⟩
  · rw [projected.unowned, if_pos member]
    exact of.held
  · rw [projected.evidence, if_pos member]
    exact of.stored

theorem Projected.symbols_again (projected : Projected r now p) :
    symbol ∈ debitSymbols (r.again p asked) ↔ symbol ∈ debitSymbols r := by
  constructor
  · intro member
    rcases List.mem_append.mp (List.mem_dedup.mp member) with earlier | evidence
    · rcases List.mem_append.mp earlier with held | seen
      · by_contra absent
        refine Dict.get?_none_iff.mp ?_ held
        exact (projected.unowned symbol).trans (if_neg absent)
      · exact List.mem_dedup.mpr (List.mem_append_left _ (List.mem_append_right _ seen))
    · by_contra absent
      refine Dict.get?_none_iff.mp ?_ evidence
      exact (projected.evidence symbol).trans (if_neg absent)
  · intro member
    obtain ⟨quantity, e, credit, of⟩ := projected.traces member
    refine List.mem_dedup.mpr (List.mem_append_right _ ?_)
    by_contra absent
    exact absurd (of.stored.symm.trans (Dict.get?_none_iff.mpr absent)) (by simp)

variable (asked) in
/-- The foreign evidence is accounted for: there is nothing to debit, and no acquisition. -/
theorem Projected.debits_again (projected : Projected r now p) (member : symbol ∈ debitSymbols r) :
    ∃ quantity e credit, Protection.Of ⟨p.unownedPositions.get? symbol, p.foreignEvidence.get? symbol⟩
      (externalDebit r.account symbol (visible r symbol)) quantity e credit ∧
      (externalInventoryDebits (r.again p asked)).get? symbol =
        some ⟨quantity, { e with newBuys := 0 }, 0, false⟩ := by
  obtain ⟨quantity, e, credit, of⟩ := projected.traces member
  refine ⟨quantity, e, credit, of, ?_⟩
  rw [externalInventoryDebits_get?, if_pos (projected.symbols_again.mpr member), again_visible]
  refine congrArg some (externalDebit_accountedFor ?_ of.stored of.provisional of.quantityNonneg
    of.creditNonneg ?_ ?_ ?_)
  · rw [Dict.getD]
    exact (congrArg (Option.getD · 0) of.held).trans rfl
  · rw [of.buys]
    exact le_max_right _ _
  · rw [of.sells]
    exact le_max_right _ _
  · rw [of.fees]
    exact le_max_right _ _

theorem Projected.nothing_acquired (projected : Projected r now p) (symbol : String) :
    acquiredSymbol (externalInventoryDebits (r.again p asked)) symbol = false := by
  unfold acquiredSymbol
  by_cases member : symbol ∈ debitSymbols r
  · obtain ⟨quantity, e, credit, -, debit⟩ := projected.debits_again asked member
    rw [debit]
    rfl
  · rw [externalInventoryDebits_get?, if_neg (mt projected.symbols_again.mp member)]
    rfl

theorem Projected.nothing_disposed (projected : Projected r now p) (symbol : String) :
    (Dict.ofList ((externalInventoryDebits (r.again p asked)).entries.map fun e =>
      (e.1, e.2.disposal))).getD symbol 0 = 0 := by
  rw [Dict.getD, Dict.get?_ofMap]
  by_cases member : symbol ∈ debitSymbols r
  · obtain ⟨quantity, e, credit, -, debit⟩ := projected.debits_again asked member
    rw [debit]
    rfl
  · rw [externalInventoryDebits_get?, if_neg (mt projected.symbols_again.mp member)]
    rfl

end debits

section facts

variable {r : Reading} {p : Projection} {now : Instant} {asked : OwnedCycle → Bool}
variable {cycle : OwnedCycle} {s : Settled} {joint acquired : Bool} {delta held : ℚ}

theorem chargedDisposal_zero (closed : Bool) (room : ℚ) : chargedDisposal closed 0 room = 0 := by
  unfold chargedDisposal
  split
  next => rfl
  next => exact min_eq_left (positive_nonneg _)

theorem baseFees_le_provenFee (r : Reading) (acquired : Bool) (delta : ℚ) (cycle : OwnedCycle) :
    baseFees (feeRows r cycle) ≤ (fact r acquired delta cycle).1.provenFee := le_max_left _ _

theorem acknowledgedUpper_eq (r : Reading) (acquired : Bool) (delta : ℚ) (cycle : OwnedCycle) :
    (fact r acquired delta cycle).1.acknowledgedUpper =
      positive (filledOn .buy (r.orders cycle.cycleId) - filledOn .sell (r.orders cycle.cycleId) -
        (fact r acquired delta cycle).1.provenFee - (fact r acquired delta cycle).1.disposal) := rfl

/-- What a first pass without disposals establishes of a cycle that is as it was written: nothing new,
and what it settled as. -/
def Fact.settledAs (f : Fact) (s : Settled) (closed recovery : Bool) : Fact :=
  { f with
    upper := if closed && !recovery then 0 else f.acknowledgedUpper
    claim := if closed then 0 else s.claim
    safeCarry := if closed then 0 else s.owned
    pendingBuy := if closed then 0 else s.pendingBuy
    mixed := s.mixed, closed := closed, recoveryCredit := recovery, newBuys := 0, newSells := 0 }

theorem fact_written {f : Fact} (of : f = (fact r acquired delta cycle).1)
    (owned : 0 ≤ s.owned) (within : s.owned ≤ s.claim) (bounded : s.claim ≤ f.acknowledgedUpper)
    (p : Projection) (now : Instant) (asked : OwnedCycle → Bool) (joint : Bool) (held : ℚ) :
    (fact (r.again p asked) false 0 (written r now joint held cycle f s)).1 =
      f.settledAs s (written r now joint held cycle f s).state.closed
        ((written r now joint held cycle f s).state.closed && decide (0 < baseFees (feeRows r cycle)) &&
          decide (0 < f.acknowledgedUpper)) := by
  have fees : max (baseFees (feeRows r cycle)) f.provenFee = f.provenFee :=
    max_eq_right (of ▸ baseFees_le_provenFee r acquired delta cycle)
  have upper : positive (filledOn .buy (r.orders cycle.cycleId) - filledOn .sell (r.orders cycle.cycleId) -
      f.provenFee - f.disposal) = f.acknowledgedUpper := of ▸ (acknowledgedUpper_eq r acquired delta cycle).symm
  have unacknowledged : unacknowledgedBuy (r.orders cycle.cycleId) = f.unacknowledgedBuy := of ▸ rfl
  have claim : min f.acknowledgedUpper (positive s.claim) = s.claim := by
    rw [positive_of_nonneg (owned.trans within), min_eq_right bounded]
  have carry : min s.claim (positive s.owned) = s.owned := by
    rw [positive_of_nonneg owned, min_eq_right within]
  -- The written cycle enters only by its ledger and its ownership record.
  have ledger : (written r now joint held cycle f s).ledger = some ⟨s.owned,
    filledOn .buy (r.orders cycle.cycleId), filledOn .sell (r.orders cycle.cycleId),
    baseFees (feeRows r cycle)⟩ := rfl
  have record : (written r now joint held cycle f s).ownership = nextOwnership r f s
    (filledOn .buy (r.orders cycle.cycleId)) (filledOn .sell (r.orders cycle.cycleId)) := rfl
  have paid : feeRows (r.again p asked) (written r now joint held cycle f s) = feeRows r cycle := rfl
  have rows : (r.again p asked).orders (written r now joint held cycle f s).cycleId =
    r.orders cycle.cycleId := rfl
  generalize written r now joint held cycle f s = c at *
  simp only [fact, ledgerAmount, ledger, record, nextOwnership, paid, rows, Bool.and_true, decide_true,
    chargedDisposal_zero, Option.getD_some, fees, sub_self, sub_zero, add_zero, upper, claim, carry,
    unacknowledged, ne_eq, not_true_eq_false, false_and, if_false, Bool.and_false, Bool.or_false,
    Fact.settledAs]

end facts

section settling

variable {r : Reading} {p : Projection} {asked : OwnedCycle → Bool} {cycle c : OwnedCycle} {f : Fact}
variable {s s' : Settled} {ready joint acquired : Bool} {observed limit : ℚ}

theorem growFromPosition_unmixed (grow : growFromPosition cycle f acquired = true) : f.mixed = false := by
  unfold growFromPosition at grow
  simp only [Bool.and_eq_true, Bool.not_eq_true', Bool.or_eq_false_iff] at grow
  exact grow.2.2

/-- The cycle as it was written: its record, and nothing else, says whether the position may settle it. -/
structure OwnedCycle.Records (c cycle : OwnedCycle) (s : Settled) : Prop where
  cycleId : c.cycleId = cycle.cycleId
  symbol : c.symbol = cycle.symbol
  grow : c.ownership.balanceSettlementAllowed = some s.growFromPosition

theorem growFromPosition_again (records : c.Records cycle s) :
    growFromPosition c (f.settledAs s false false) false = (s.growFromPosition && !s.mixed) := by
  unfold growFromPosition Fact.settledAs
  simp [records.grow]

/-- How a cycle that stayed open settles again. -/
theorem settle_again_eq (records : c.Records cycle s) :
    let f' := f.settledAs s false false
    let rows := r.orders cycle.cycleId
    let feeEvidence := buyFeeEvidence rows (feeRows r cycle)
    let grow := s.growFromPosition && !s.mixed
    settle (r.again p asked) ready joint false c f' observed =
      if !ready then .ok (settleSafe f' observed grow .evidencePending)
      else if s.mixed ∧ !joint then .ok (settleSafe f' observed grow .mixedUnresolved)
      else if feeEvidence ∧ joint then .ok (settleJointFees f' observed)
      else if s.mixed ∨ (0 < s.pendingBuy ∧ joint) then .ok (settleJoint f' observed)
      else if grow ∨ 0 < s.pendingBuy then .ok (settleFromPosition f' observed feeEvidence false grow)
      else match r.minOrderSize cycle.symbol with
        | some limit => .ok (settleClaim f' observed grow (filledOn .sell rows) rows limit)
        | none => .error .missingAsset := by
  dsimp only
  rw [← growFromPosition_again (f := f) records]
  unfold settle
  have fees : feeRows (r.again p asked) c = feeRows r cycle := by
    unfold feeRows
    rw [records.cycleId]
    rfl
  rw [records.symbol, again_orders, records.cycleId, fees]
  rfl

/-- A settlement that keeps what the cycle safely has. -/
theorem settleSafe_again (inside : s.owned ≤ observed) (cap : s.cap = f.acknowledgedUpper) (grow : Bool)
    (settlement : Settlement) : settleSafe (f.settledAs s false false) observed grow settlement =
      { s with growFromPosition := grow, settlement := settlement } := by
  unfold settleSafe Fact.settledAs
  simp only [Bool.false_eq_true, if_false, Bool.false_and, min_eq_left inside, cap]

theorem settleClaim_again {sold : ℚ} {rows : List OwnedOrder} (owned : min s.claim observed = s.owned)
    (cap : s.cap = f.acknowledgedUpper) (settlement : s.settlement =
      if s.owned < s.claim then .positionPending else if s.owned < s.cap then .provisionalNet else .settled)
    (whole : ¬(0 < sold ∧ rows ≠ [] ∧ (rows.all fun row => row.status.final) ∧
      max (max (max s.owned s.claim) f.acknowledgedUpper) observed < limit)) :
    settleClaim (f.settledAs s false false) observed s.growFromPosition sold rows limit = s := by
  unfold settleClaim Fact.settledAs
  simp only [Bool.false_eq_true, if_false, Bool.false_and, owned, if_neg whole]
  rw [← cap, ← settlement]

attribute [ext] Settled

/-- A settlement by the position itself, which fits under the bound. -/
structure Settled.Moved (s : Settled) (f : Fact) (observed : ℚ) (feeEvidence grow : Bool) : Prop where
  claim : s.claim = if 0 < f.pendingBuy ∧ feeEvidence then f.upper else max f.claim observed
  within : observed ≤ s.claim
  owned : s.owned = observed
  cap : s.cap = f.upper
  mixed : s.mixed = f.mixed
  grow : s.growFromPosition = grow
  pending : s.pendingBuy =
    if 0 < s.owned ∧ (!feeEvidence ∨ s.owned = s.claim) then 0 else f.pendingBuy
  settlement : s.settlement =
    if s.owned < s.claim ∨ (0 < s.pendingBuy ∧ s.owned = 0) then .positionPending
    else if s.owned < f.upper then .provisionalNet else .settled

theorem settleFromPosition_moved {feeEvidence grow : Bool} (under : observed ≤ f.upper)
    (from_ : s = settleFromPosition f observed feeEvidence acquired grow) :
    s.Moved f observed feeEvidence grow := by
  rw [settleFromPosition, if_pos under] at from_
  have claim : s.claim = if 0 < f.pendingBuy ∧ feeEvidence then f.upper else max f.claim observed := by
    rw [from_]
  have within : observed ≤ s.claim := by
    rw [claim]
    split
    next => exact under
    next => exact le_max_right _ _
  refine ⟨claim, within, ?_, ?_, ?_, ?_, ?_, ?_⟩
  case refine_1 =>
    rw [show s.owned = min s.claim observed by rw [from_]]
    exact min_eq_right within
  all_goals rw [from_]

/-- What is still pending was pending before. -/
theorem Settled.Moved.left {feeEvidence grow : Bool} (moved : s.Moved f observed feeEvidence grow)
    (left : 0 < s.pendingBuy) : s.pendingBuy = f.pendingBuy := by
  rw [moved.pending] at left ⊢
  split at left
  next => exact absurd left (lt_irrefl 0)
  next apart => rw [if_neg apart]

/-- A claim that the position settled, settled by the position again. -/
theorem settleFromPosition_again {feeEvidence grow : Bool} (whole : f.upper = f.acknowledgedUpper)
    (under : observed ≤ f.upper) (moved : s.Moved f observed feeEvidence grow) :
    settleFromPosition (f.settledAs s false false) observed feeEvidence false grow = s := by
  have same : (if 0 < s.pendingBuy ∧ feeEvidence then f.acknowledgedUpper else max s.claim observed) =
      s.claim := by
    split
    next known =>
      rw [moved.claim, if_pos ⟨moved.left known.1 ▸ known.1, known.2⟩, whole]
    next => exact max_eq_left moved.within
  have left : (if 0 < s.owned ∧ (!feeEvidence ∨ s.owned = s.claim) then 0 else s.pendingBuy) =
      s.pendingBuy := by
    split
    next done => rw [moved.pending, if_pos done]
    next => rfl
  have drawn : min s.claim observed = s.owned := (min_eq_right moved.within).trans moved.owned.symm
  have under' : observed ≤ (f.settledAs s false false).upper := under.trans whole.le
  rw [settleFromPosition, if_pos under']
  simp only [Fact.settledAs, Bool.false_eq_true, if_false, Bool.false_and]
  rw [same, drawn, left]
  ext
  case cap => exact whole.symm.trans moved.cap.symm
  case growFromPosition => exact moved.grow.symm
  case settlement => rw [moved.settlement, whole]
  all_goals rfl

/-- A position above the bound that orders not yet acknowledged may still explain. -/
theorem settleFromPosition_expected {feeEvidence : Bool} (whole : f.upper = f.acknowledgedUpper)
    (above : ¬observed ≤ f.upper) (inside : s.owned ≤ observed) (unmixed : s.mixed = false)
    (cap : s.cap = f.upper) (expects : 0 < f.unacknowledgedBuy)
    (within : observed ≤ f.upper + f.unacknowledgedBuy) (grow : s.growFromPosition = true)
    (settlement : s.settlement = .orderPositionPending) :
    settleFromPosition (f.settledAs s false false) observed feeEvidence false s.growFromPosition = s := by
  rw [whole] at above within
  unfold settleFromPosition Fact.settledAs
  simp only [Bool.false_eq_true, if_false, Bool.false_and, if_neg above, unmixed, Bool.not_false, true_and,
    if_pos (And.intro expects within), min_eq_left inside]
  ext
  case cap => exact (cap.trans whole).symm
  case mixed => exact unmixed.symm
  case growFromPosition => exact grow.symm
  case settlement => exact settlement.symm
  all_goals rfl

/-- Only a cycle without mixed flows may still grow from the position. -/
theorem settle_unmixed (settled : settle r ready joint acquired cycle f observed = .ok s)
    (grow : s.growFromPosition = true) : s.mixed = false := by
  unfold settle at settled
  dsimp only at settled
  repeat' split at settled
  all_goals cases settled
  next => exact growFromPosition_unmixed grow
  next => exact growFromPosition_unmixed grow
  next => exact growFromPosition_unmixed grow
  next => rfl
  next => rfl
  next adds _ =>
    have unmixed : f.mixed = false := by
      simpa using fun mixed => adds (.inl mixed)
    unfold settleFromPosition at grow ⊢
    dsimp only at grow ⊢
    split
    next => exact unmixed
    next above =>
      rw [if_neg above] at grow
      split
      next => exact unmixed
      next apart =>
        rw [if_neg apart] at grow
        cases grow
  next =>
    unfold settleClaim at grow ⊢
    dsimp only at grow ⊢
    split
    next dust =>
      rw [if_pos dust] at grow
      exact growFromPosition_unmixed grow
    next whole =>
      rw [if_neg whole] at grow
      exact growFromPosition_unmixed grow

theorem settleJointFees_again (whole : f.upper = f.acknowledgedUpper) :
    settleJointFees (f.settledAs s false false) observed = settleJointFees f observed := by
  unfold settleJointFees Fact.settledAs
  simp only [Bool.false_eq_true, if_false, Bool.false_and, whole]

theorem settleJoint_again (whole : f.upper = f.acknowledgedUpper) :
    settleJoint (f.settledAs (settleJoint f observed) false false) observed = settleJoint f observed := by
  unfold settleJoint Fact.settledAs
  simp only [Bool.false_eq_true, if_false, Bool.false_and, whole]
  ext
  case pendingBuy =>
    dsimp only
    split
    next => rfl
    next => rfl
  all_goals rfl

theorem settleJoint_settlement : (settleJoint f observed).settlement =
    if (settleJoint f observed).owned < (settleJoint f observed).claim then .positionPending
    else if (settleJoint f observed).owned < (settleJoint f observed).cap then .provisionalNet
    else .settled := by
  by_cases all_ : min f.upper observed = f.upper
  · have owned : ¬(settleJoint f observed).owned < (settleJoint f observed).claim := all_.not_lt
    have bounded : ¬(settleJoint f observed).owned < (settleJoint f observed).cap := all_.not_lt
    rw [if_neg owned, if_neg bounded]
    exact if_pos all_
  · have short : (settleJoint f observed).owned < (settleJoint f observed).claim :=
      lt_of_le_of_ne (min_le_left _ _) all_
    rw [if_pos short]
    exact if_neg all_

theorem le_max_bound (whole : f.upper = f.acknowledgedUpper) (low observed : ℚ) :
    f.upper ≤ max (max low f.acknowledgedUpper) observed :=
  whole ▸ (le_max_right _ _).trans (le_max_left _ _)

/-- A finished cycle: it sold, and all its orders are over. -/
def Finished (r : Reading) (cycle : OwnedCycle) : Prop :=
  0 < filledOn .sell (r.orders cycle.cycleId) ∧ r.orders cycle.cycleId ≠ [] ∧
    ((r.orders cycle.cycleId).all fun row => row.status.final)

/-- A cycle that stayed open settles again as it did, unless the refresh only then settled pending or
mixed buys of a finished one, or left its balance mixed although it adds up. -/
theorem settle_again (records : c.Records cycle s)
    (settled : settle r ready joint acquired cycle f observed = .ok s)
    (inside : s.owned ≤ observed) (whole : f.upper = f.acknowledgedUpper)
    (working : alreadyClosed f joint = false)
    (kept : Finished r cycle → s.owned = 0 → s.claim = 0 → s.cap = 0 → s.settlement.unresolved = true)
    (dust : (f.mixed ∨ 0 < f.pendingBuy) → Finished r cycle →
      ∀ limit ∈ r.minOrderSize cycle.symbol, limit ≤ f.upper)
    (explained : s.settlement = .mixedUnresolved → joint = false)
    (later : settle (r.again p asked) ready joint false c (f.settledAs s false false) observed = .ok s') :
    s' = s := by
  have grows : (s.growFromPosition && !s.mixed) = s.growFromPosition := by
    cases grow : s.growFromPosition
    · rfl
    · rw [settle_unmixed settled grow]
      rfl
  rw [settle_again_eq records, grows] at later
  unfold settle at settled
  dsimp only at settled
  rw [working, if_neg Bool.false_ne_true] at settled
  by_cases off : ready = true
  case neg =>
    rw [if_pos (by simp [off])] at settled later
    obtain rfl := Except.ok.inj settled
    rw [settleSafe_again inside whole] at later
    exact (Except.ok.inj later).symm
  case pos =>
  rw [if_neg (by simp [off])] at settled later
  by_cases doubt : f.mixed ∧ !joint
  case pos =>
    rw [if_pos doubt] at settled
    obtain rfl := Except.ok.inj settled
    rw [if_pos (show (settleSafe f observed _ _).mixed = true ∧ _ from doubt),
      settleSafe_again inside whole] at later
    exact (Except.ok.inj later).symm
  case neg =>
  rw [if_neg doubt] at settled
  by_cases known : buyFeeEvidence (r.orders cycle.cycleId) (feeRows r cycle) ∧ joint
  case pos =>
    rw [if_pos known] at settled
    obtain rfl := Except.ok.inj settled
    rw [if_neg (show ¬((settleJointFees f observed).mixed = true ∧ _) by simp [settleJointFees]),
      if_pos known, settleJointFees_again whole] at later
    exact (Except.ok.inj later).symm
  case neg =>
  rw [if_neg known] at settled
  by_cases adds : f.mixed ∨ (0 < f.pendingBuy ∧ joint)
  case pos =>
    rw [if_pos adds] at settled
    obtain rfl := Except.ok.inj settled
    rw [if_neg (show ¬((settleJoint f observed).mixed = true ∧ _) by simp [settleJoint]), if_neg known] at later
    by_cases left : (settleJoint f observed).mixed = true ∨ (0 < (settleJoint f observed).pendingBuy ∧ joint)
    case pos =>
      rw [if_pos left, settleJoint_again whole] at later
      exact (Except.ok.inj later).symm
    case neg =>
    -- The balance adds up, so that nothing is left pending: the claim settles.
    have together : joint = true := by
      rcases adds with mixed | ⟨-, together⟩
      · simpa [mixed] using doubt
      · exact together
    rw [if_neg left, if_neg (show ¬((settleJoint f observed).growFromPosition = true ∨ _) from fun either =>
      either.elim (fun grow => Bool.false_ne_true grow) fun pending => left (.inr ⟨pending, together⟩))] at later
    split at later
    next limit limited =>
      have claimed : settleClaim (f.settledAs (settleJoint f observed) false false) observed
          (settleJoint f observed).growFromPosition (filledOn .sell (r.orders cycle.cycleId))
          (r.orders cycle.cycleId) limit = settleJoint f observed := by
        refine settleClaim_again rfl whole settleJoint_settlement fun ⟨sold, some_, final, small⟩ => ?_
        have floor := dust (adds.imp id And.left) ⟨sold, some_, final⟩ limit limited
        exact absurd small (not_lt.mpr (floor.trans (le_max_bound whole _ _)))
      rw [claimed] at later
      exact (Except.ok.inj later).symm
    next => cases later
  case neg =>
  rw [if_neg adds] at settled
  by_cases moves : growFromPosition cycle f acquired ∨ 0 < f.pendingBuy
  case pos =>
    rw [if_pos moves] at settled
    have of := (Except.ok.inj settled).symm
    have unmixed : f.mixed = false := by simpa using fun mixed => adds (.inl mixed)
    by_cases under : observed ≤ f.upper
    case pos =>
      have moved := settleFromPosition_moved under of
      have mixed : s.mixed = false := moved.mixed.trans unmixed
      have quiet : ¬(s.mixed = true ∨ (0 < s.pendingBuy ∧ joint = true)) := by
        rw [mixed]
        rintro (never | ⟨left, together⟩)
        · exact Bool.false_ne_true never
        · exact adds (.inr ⟨moved.left left ▸ left, together⟩)
      rw [if_neg (show ¬(s.mixed = true ∧ _) by simp [mixed]), if_neg known, if_neg quiet] at later
      by_cases stays : s.growFromPosition = true ∨ 0 < s.pendingBuy
      case pos =>
        rw [if_pos stays, moved.grow, settleFromPosition_again whole under moved] at later
        exact (Except.ok.inj later).symm
      case neg =>
      -- What was pending has settled by the position; the claim settles.
      rw [if_neg stays] at later
      have before : 0 < f.pendingBuy := moves.resolve_left fun grow => stays (.inl (moved.grow.trans grow))
      split at later
      next limit limited =>
        rw [settleClaim_again ((min_eq_right moved.within).trans moved.owned.symm)
          (moved.cap.trans whole) ?_ ?_] at later
        · exact (Except.ok.inj later).symm
        · rw [moved.settlement, moved.cap]
          have none_ : ¬(0 < s.pendingBuy ∧ s.owned = 0) := fun h => stays (.inr h.1)
          simp only [none_, or_false]
        · rintro ⟨sold, some_, final, small⟩
          have floor := dust (.inr before) ⟨sold, some_, final⟩ limit limited
          exact absurd small (not_lt.mpr (floor.trans (le_max_bound whole _ _)))
      next => cases later
    case neg =>
    rw [settleFromPosition, if_neg under] at of
    dsimp only at of
    split at of
    next expected =>
      -- Orders not yet acknowledged may explain the position, as before.
      have mixed : s.mixed = false := by rw [of]; exact unmixed
      have grow : s.growFromPosition = true := by rw [of]
      have pending : s.pendingBuy = f.pendingBuy := by rw [of]
      rw [if_neg (show ¬(s.mixed = true ∧ _) by simp [mixed]), if_neg known,
        if_neg (by rw [mixed, pending]; simpa [unmixed] using adds), if_pos (.inl grow),
        settleFromPosition_expected whole under inside mixed (by rw [of]) expected.2.2.1 expected.2.2.2
          grow (by rw [of])] at later
      exact (Except.ok.inj later).symm
    next =>
      have mixed : s.mixed = true := by rw [of]
      have apart : joint = false := explained (by rw [of])
      rw [if_pos ⟨mixed, by simp [apart]⟩, settleSafe_again inside (by rw [of]; exact whole)] at later
      have same : { s with growFromPosition := s.growFromPosition, settlement := .mixedUnresolved } = s := by
        rw [of]
      exact (Except.ok.inj later).symm.trans same
  case neg =>
  rw [if_neg moves] at settled
  split at settled
  next limit limited =>
    have of := (Except.ok.inj settled).symm
    have unmixed : f.mixed = false := by simpa using fun mixed => adds (.inl mixed)
    rw [settleClaim] at of
    split at of
    next dusty =>
      have unresolved := kept ⟨dusty.1, dusty.2.1, dusty.2.2.1⟩ (by rw [of]) (by rw [of]) (by rw [of])
      rw [of] at unresolved
      cases unresolved
    next clean =>
      have mixed : s.mixed = false := by rw [of]; exact unmixed
      have grow : s.growFromPosition = growFromPosition cycle f acquired := by rw [of]
      have pending : s.pendingBuy = f.pendingBuy := by rw [of]
      rw [if_neg (show ¬(s.mixed = true ∧ _) by simp [mixed]), if_neg known,
        if_neg (by rw [mixed, pending]; simpa [unmixed] using adds),
        if_neg (by rw [grow, pending]; exact moves), limited] at later
      dsimp only at later
      rw [settleClaim_again] at later
      · exact (Except.ok.inj later).symm
      · rw [of]
      · rw [of]
        exact whole
      · rw [of]
      · rw [of, ← whole]
        exact clean
  next => cases settled

/-- What is finished, owns nothing and claims nothing does not stay open. -/
theorem nextState_finished {bought sold position held : ℚ} {closed : Bool} {rows : List OwnedOrder}
    (isOpen : (nextState cycle rows s closed bought sold position held).closed = false) (sells : 0 < sold)
    (some_ : rows ≠ []) (final : rows.all fun row => row.status.final) (owned : s.owned = 0)
    (claim : s.claim = 0) (cap : s.cap = 0) : s.settlement.unresolved = true := by
  by_contra resolved
  have pending : (rows.any fun row => !row.status.final) = false := by
    simpa using final
  unfold nextState at isOpen
  simp only [pending, Bool.not_false, Bool.and_true, owned, claim, cap, sells, if_neg resolved,
    List.isEmpty_eq_false_iff.mpr some_, true_and, true_or, or_true, if_true] at isOpen
  split at isOpen <;> cases isOpen

/-- A closed cycle that is settled as closed stays as it is. -/
theorem nextState_again {before after : OwnedCycle} {rows : List OwnedOrder} {closed : Bool}
    {bought sold position held : ℚ} (f : Fact) (grow : Bool)
    (ended : (nextState before rows s closed bought sold position held).closed = true) :
    nextState after rows (settleClosed f grow) true bought sold position held =
      nextState before rows s closed bought sold position held := by
  unfold nextState at ended ⊢
  dsimp only at ended ⊢
  split at ended
  next noFill => rw [if_pos noFill, if_pos noFill]
  next filled =>
    rw [if_neg filled, if_neg filled]
    split at ended
    next => cases ended
    next resolved =>
      split at ended
      next flat =>
        rw [if_neg resolved, if_pos flat,
          if_neg (show ¬(settleClosed f grow).settlement.unresolved = true from Bool.false_ne_true),
          if_pos ⟨flat.1, rfl, rfl, flat.2.2.2.1, .inl rfl⟩]
      next =>
        repeat' split at ended
        all_goals cases ended

end settling

section cycles

/-- What a refresh says of a cycle, apart from the evidence for it. -/
structure OwnedCycle.Unchanged (before after : OwnedCycle) : Prop where
  cycleId : after.cycleId = before.cycleId
  owned : ledgerAmount after Ledger.ownedQuantity = ledgerAmount before Ledger.ownedQuantity
  entitlement : after.ownership.establishedEntitlement = before.ownership.establishedEntitlement
  bound : after.ownership.acknowledgedNetUpperBound = before.ownership.acknowledgedNetUpperBound
  state : after.state = before.state

theorem OwnedCycle.Unchanged.refl (cycle : OwnedCycle) : cycle.Unchanged cycle := ⟨rfl, rfl, rfl, rfl, rfl⟩

/-- A refresh leaves the cycle with nothing that only the next one would act on: it is not closed with
coins left under its bound, nor reopened by its orders alone; pending or mixed buys are not settled on
what is left of a finished cycle below the smallest order; and it is not mixed where the position adds up. -/
structure SteadyCycle (r : Reading) (joint : String → Bool) (k : OwnedCycle × Fact) (c : OwnedCycle) :
    Prop where
  closes : c.state.closed = true → k.2.upper = 0
  reopens : c.state.closed = false → alreadyClosed k.2 (joint k.1.symbol) = false
  dust : c.state.closed = false → (k.2.mixed ∨ 0 < k.2.pendingBuy) → Finished r k.1 →
    ∀ limit ∈ r.minOrderSize k.1.symbol, limit ≤ k.2.upper
  explained : c.ownership.settlementState = some .mixedUnresolved → joint k.1.symbol = false

variable {r : Reading} {p : Projection} {asked : OwnedCycle → Bool} {now : Instant} {ready : Bool}
variable {debits : Dict String Debit} {held remaining : String → ℚ} {joint : String → Bool}
variable {cycle : OwnedCycle} {f : Fact} {known : List (OwnedCycle × Fact)} {cycles : List OwnedCycle}

theorem settleAll_cons (settled : settleAll r now ready debits held joint remaining ((cycle, f) :: known) =
      .ok cycles) :
    ∃ s rest, settle r ready (joint cycle.symbol) (acquiredSymbol debits cycle.symbol) cycle f
        (remaining cycle.symbol) = .ok s ∧
      settleAll r now ready debits held joint (fun symbol => if symbol = cycle.symbol then
        positive (remaining symbol - s.owned) else remaining symbol) known = .ok rest ∧
      cycles = written r now (joint cycle.symbol) (held cycle.symbol) cycle f s :: rest := by
  rw [settleAll] at settled
  split at settled
  next => cases settled
  next =>
    obtain ⟨s, first, others⟩ := bind_ok_iff.mp settled
    obtain ⟨rest, ended, same⟩ := bind_ok_iff.mp others
    exact ⟨s, rest, first, ended, (Except.ok.inj same).symm⟩

/-- The first pass over the cycles just written, where nothing is disposed of or acquired. -/
def rewritten (r : Reading) (p : Projection) (asked : OwnedCycle → Bool) (c : OwnedCycle) :
    OwnedCycle × Fact :=
  (c, (fact (r.again p asked) false 0 c).1)

theorem facts_again {debits : Dict String Debit} {deltas : Dict String ℚ} (cycles : List OwnedCycle)
    (acquired : ∀ symbol, acquiredSymbol debits symbol = false) (disposed : ∀ symbol, deltas.getD symbol 0 = 0) :
    facts (r.again p asked) debits deltas cycles = cycles.map (rewritten r p asked) := by
  induction cycles generalizing deltas with
  | nil => rfl
  | cons cycle rest ih =>
    have charged : (fact (r.again p asked) false 0 cycle).2 = 0 := chargedDisposal_zero _ _
    rw [facts, acquired, disposed, charged, List.map_cons, ih]
    · rfl
    · intro symbol
      rw [Dict.getD_set]
      split
      next => rw [sub_zero]; exact positive_of_nonneg le_rfl
      next => exact disposed symbol

/-- An open cycle settled again as before is written again as before. -/
theorem written_open {s : Settled} {joint : Bool} {held : ℚ} (working : alreadyClosed f joint = false) :
    written (r.again p asked) now joint held (written r now joint held cycle f s) (f.settledAs s false false) s =
      written r now joint held cycle f s := by
  unfold written
  rw [working]
  rfl

section step

variable {s s' : Settled} {observed heldNow : ℚ} {acquired together : Bool}

/-- What the first refresh did with one cycle. -/
structure Settles (r : Reading) (ready joint acquired : Bool) (cycle : OwnedCycle) (f : Fact) (observed : ℚ)
    (s : Settled) : Prop where
  fact : ∃ acquired delta, f = (fact r acquired delta cycle).1
  settled : settle r ready joint acquired cycle f observed = .ok s
  nonneg : 0 ≤ observed

theorem Settles.chained (settles : Settles r ready together acquired cycle f observed s) :
    s.Chained f ∧ s.Within observed := by
  obtain ⟨_, delta, of⟩ := settles.fact
  exact ⟨settle_chained (of ▸ fact_chained r _ delta cycle) settles.settled,
    settle_within (of ▸ fact_bounded r _ delta cycle) settles.nonneg settles.settled⟩

theorem whole_of_working (of : ∃ acquired delta, f = (fact r acquired delta cycle).1)
    (working : alreadyClosed f together = false) : f.upper = f.acknowledgedUpper := by
  obtain ⟨_, delta, of⟩ := of
  have upper : f.upper = if f.closed && !f.recoveryCredit then 0 else f.acknowledgedUpper := of ▸ rfl
  rw [upper, if_neg]
  rw [alreadyClosed] at working
  intro both
  simp only [Bool.and_eq_true, Bool.not_eq_true'] at both
  rw [both.1, both.2] at working
  cases working

variable (p asked now heldNow) in
/-- The fact of a written cycle, by its bounds. -/
theorem Settles.fact_again (settles : Settles r ready together acquired cycle f observed s)
    (bounded : s.claim ≤ f.acknowledgedUpper) :
    (rewritten r p asked (written r now together heldNow cycle f s)).2 =
      f.settledAs s (written r now together heldNow cycle f s).state.closed
        ((written r now together heldNow cycle f s).state.closed &&
          decide (0 < baseFees (feeRows r cycle)) && decide (0 < f.acknowledgedUpper)) := by
  obtain ⟨_, delta, of⟩ := settles.fact
  obtain ⟨chained, within⟩ := settles.chained
  exact fact_written of within.nonneg chained.owned bounded p now asked together heldNow

theorem Settles.again_open (settles : Settles r ready together acquired cycle f observed s)
    (steady : SteadyCycle r joint (cycle, f) (written r now together heldNow cycle f s))
    (same : together = joint cycle.symbol)
    (isOpen : (written r now together heldNow cycle f s).state.closed = false)
    (later : settle (r.again p asked) ready together false (written r now together heldNow cycle f s)
      (rewritten r p asked (written r now together heldNow cycle f s)).2 observed = .ok s') :
    s' = s ∧ written (r.again p asked) now together heldNow (written r now together heldNow cycle f s)
      (rewritten r p asked (written r now together heldNow cycle f s)).2 s' =
        written r now together heldNow cycle f s := by
  have working : alreadyClosed f together = false := same ▸ steady.reopens isOpen
  have whole := whole_of_working settles.fact working
  obtain ⟨chained, within⟩ := settles.chained
  have of := settles.fact_again p asked now heldNow
    (whole ▸ chained.claim.trans chained.cap)
  rw [isOpen, Bool.false_and, Bool.false_and] at of
  rw [of] at later ⊢
  have records : (written r now together heldNow cycle f s).Records cycle s := ⟨rfl, rfl, rfl⟩
  have again : s' = s := by
    refine settle_again records settles.settled within.within whole working ?_ (steady.dust isOpen)
      (fun mixed => same ▸ steady.explained (congrArg some mixed)) later
    intro finished owned claim cap
    exact nextState_finished isOpen finished.1 finished.2.1 finished.2.2 owned claim cap
  exact ⟨again, again ▸ written_open working⟩

/-- No credit is left to recover on a cycle without a bound. -/
theorem recovery_spent (of : ∃ acquired delta, f = (fact r acquired delta cycle).1) (bare : f.upper = 0) :
    (decide (0 < baseFees (feeRows r cycle)) && decide (0 < f.acknowledgedUpper)) = false := by
  obtain ⟨_, delta, of⟩ := of
  have upper : f.upper = if f.closed && !f.recoveryCredit then 0 else f.acknowledgedUpper := of ▸ rfl
  have recovery : f.recoveryCredit = (f.closed && decide (0 < baseFees (feeRows r cycle)) &&
    decide (0 < f.acknowledgedUpper)) := of ▸ rfl
  by_contra credit
  simp only [Bool.not_eq_false, Bool.and_eq_true] at credit
  rw [upper, recovery, credit.1, credit.2, Bool.and_true, Bool.and_true, Bool.and_not_self] at bare
  exact (of_decide_eq_true credit.2).ne' bare

theorem Settles.nothing (settles : Settles r ready together acquired cycle f observed s)
    (bare : f.upper = 0) : s.owned = 0 ∧ s.claim = 0 ∧ s.cap = 0 := by
  obtain ⟨chained, within⟩ := settles.chained
  have owned := chained.owned
  have claim := chained.claim
  have cap := chained.cap
  have nonneg := within.nonneg
  exact ⟨by linarith, by linarith, by linarith⟩

/-- A cycle closed without a bound stays closed, with nothing. -/
theorem Settles.again_closed (settles : Settles r ready together acquired cycle f observed s)
    (bare : f.upper = 0) (ended : (written r now together heldNow cycle f s).state.closed = true)
    (later : settle (r.again p asked) ready together false (written r now together heldNow cycle f s)
      (rewritten r p asked (written r now together heldNow cycle f s)).2 observed = .ok s') :
    s'.owned = 0 ∧ (written r now together heldNow cycle f s).Unchanged
      (written (r.again p asked) now together heldNow (written r now together heldNow cycle f s)
        (rewritten r p asked (written r now together heldNow cycle f s)).2 s') := by
  obtain ⟨owned, claim, cap⟩ := settles.nothing bare
  have bounded : s.claim ≤ f.acknowledgedUpper := by
    obtain ⟨_, delta, of⟩ := settles.fact
    rw [claim, of]
    exact positive_nonneg _
  have of := settles.fact_again p asked now heldNow bounded
  rw [ended, Bool.true_and, recovery_spent settles.fact bare] at of
  rw [of] at later ⊢
  unfold settle at later
  rw [if_pos (show alreadyClosed (f.settledAs s true false) together = true from rfl)] at later
  obtain rfl := Except.ok.inj later
  refine ⟨rfl, rfl, owned.symm, congrArg some claim.symm, congrArg some cap.symm, ?_⟩
  exact nextState_again _ _ ended

end step

/-- The cycles settle in turn as they did: those dropped as closed own nothing. -/
theorem settleAll_again {again : Dict String Debit} {cycles' : List OwnedCycle}
    (of : ∀ k ∈ known, ∃ acquired delta, k.2 = (fact r acquired delta k.1).1)
    (nonneg : ∀ symbol, 0 ≤ remaining symbol) (acquired : ∀ symbol, acquiredSymbol again symbol = false)
    (steady : List.Forall₂ (SteadyCycle r joint) known cycles)
    (settled : settleAll r now ready debits held joint remaining known = .ok cycles)
    (later : settleAll (r.again p asked) now ready again held joint remaining
      ((cycles.filter fun c => !c.state.closed || asked c).map (rewritten r p asked)) = .ok cycles') :
    List.Forall₂ OwnedCycle.Unchanged (cycles.filter fun c => !c.state.closed || asked c) cycles' := by
  induction known generalizing remaining cycles cycles' with
  | nil =>
    cases settled
    cases later
    exact .nil
  | cons k rest ih =>
    obtain ⟨cycle, f⟩ := k
    rw [List.forall_mem_cons] at of
    obtain ⟨s, others, first, next, rfl⟩ := settleAll_cons settled
    obtain ⟨here, beyond⟩ := List.forall₂_cons.mp steady
    have settles : Settles r ready (joint cycle.symbol) (acquiredSymbol debits cycle.symbol) cycle f
      (remaining cycle.symbol) s := ⟨of.1, first, nonneg _⟩
    have left : ∀ symbol, 0 ≤ (if symbol = cycle.symbol then positive (remaining symbol - s.owned)
        else remaining symbol) := by
      intro symbol
      split
      next => exact positive_nonneg _
      next => exact nonneg symbol
    have unmoved (none_ : s.owned = 0) : (fun symbol => if symbol = cycle.symbol then
        positive (remaining symbol - s.owned) else remaining symbol) = remaining := by
      funext symbol
      rw [none_, sub_zero, positive_of_nonneg (nonneg symbol), ite_self]
    rw [List.filter_cons] at later ⊢
    split
    next read =>
      rw [if_pos read, List.map_cons] at later
      obtain ⟨s', others', first', next', rfl⟩ := settleAll_cons later
      rw [acquired] at first'
      cases state : (written r now (joint cycle.symbol) (held cycle.symbol) cycle f s).state.closed with
      | false =>
        obtain ⟨rfl, same⟩ := settles.again_open here rfl state first'
        refine .cons ?_ (ih of.2 left beyond next next')
        exact same.symm ▸ .refl _
      | true =>
        have bare := here.closes state
        obtain ⟨none_, unchanged⟩ := settles.again_closed bare state first'
        have owned : s.owned = 0 := (settles.nothing bare).1
        refine .cons unchanged (ih of.2 left beyond next ?_)
        rw [owned, ← none_]
        exact next'
    next dropped =>
      rw [if_neg dropped] at later
      have state : (written r now (joint cycle.symbol) (held cycle.symbol) cycle f s).state.closed = true := by
        simp only [Bool.or_eq_true, Bool.not_eq_true', not_or, Bool.not_eq_false] at dropped
        exact dropped.1
      rw [unmoved (settles.nothing (here.closes state)).1] at next
      exact ih of.2 nonneg beyond next later

theorem totalOf_cons (of_ : Fact → ℚ) (k : OwnedCycle × Fact) (known : List (OwnedCycle × Fact))
    (symbol : String) : totalOf of_ (k :: known) symbol =
      (if k.1.symbol = symbol then of_ k.2 else 0) + totalOf of_ known symbol := by
  unfold totalOf
  rw [List.filter_cons]
  by_cases same : k.1.symbol = symbol
  · simp [same]
  · simp [same]

theorem ownedOf_cons (c : OwnedCycle) (cycles : List OwnedCycle) (symbol : String) :
    ownedOf (c :: cycles) symbol =
      (if c.symbol = symbol then c.columns.ownedQuantity else 0) + ownedOf cycles symbol := by
  unfold ownedOf
  rw [List.filter_cons]
  by_cases same : c.symbol = symbol
  · simp [same]
  · simp [same]

variable (p asked) in
/-- What an open cycle carries into the next first pass is what it owns, under the same bound. -/
theorem Settles.carries_open {s : Settled} {observed heldNow : ℚ} {acquired together : Bool}
    (settles : Settles r ready together acquired cycle f observed s)
    (working : alreadyClosed f together = false)
    (isOpen : (written r now together heldNow cycle f s).state.closed = false) :
    (rewritten r p asked (written r now together heldNow cycle f s)).2.safeCarry = s.owned ∧
      (rewritten r p asked (written r now together heldNow cycle f s)).2.upper = f.upper := by
  have whole := whole_of_working settles.fact working
  obtain ⟨chained, within⟩ := settles.chained
  rw [settles.fact_again p asked now heldNow (whole ▸ chained.claim.trans chained.cap), isOpen]
  exact ⟨rfl, whole.symm⟩

variable (p asked) in
theorem Settles.carries_closed {s : Settled} {observed heldNow : ℚ} {acquired together : Bool}
    (settles : Settles r ready together acquired cycle f observed s) (bare : f.upper = 0)
    (ended : (written r now together heldNow cycle f s).state.closed = true) :
    (rewritten r p asked (written r now together heldNow cycle f s)).2.safeCarry = 0 ∧
      (rewritten r p asked (written r now together heldNow cycle f s)).2.upper = 0 := by
  have bounded : s.claim ≤ f.acknowledgedUpper := by
    obtain ⟨_, delta, of⟩ := settles.fact
    rw [(settles.nothing bare).2.1, of]
    exact positive_nonneg _
  rw [settles.fact_again p asked now heldNow bounded, ended, Bool.true_and, recovery_spent settles.fact bare]
  exact ⟨rfl, rfl⟩

variable (p asked) in
theorem totals_again (of : ∀ k ∈ known, ∃ acquired delta, k.2 = (fact r acquired delta k.1).1)
    (nonneg : ∀ symbol, 0 ≤ remaining symbol)
    (steady : List.Forall₂ (SteadyCycle r joint) known cycles)
    (settled : settleAll r now ready debits held joint remaining known = .ok cycles) (symbol : String) :
    let again := (cycles.filter fun c => !c.state.closed || asked c).map (rewritten r p asked)
    totalOf Fact.safeCarry again symbol = ownedOf cycles symbol ∧
      totalOf Fact.upper again symbol = totalOf Fact.upper known symbol := by
  dsimp only
  induction known generalizing remaining cycles with
  | nil =>
    cases settled
    exact ⟨rfl, rfl⟩
  | cons k rest ih =>
    obtain ⟨cycle, f⟩ := k
    rw [List.forall_mem_cons] at of
    obtain ⟨s, others, first, next, rfl⟩ := settleAll_cons settled
    obtain ⟨here, beyond⟩ := List.forall₂_cons.mp steady
    have settles : Settles r ready (joint cycle.symbol) (acquiredSymbol debits cycle.symbol) cycle f
      (remaining cycle.symbol) s := ⟨of.1, first, nonneg _⟩
    obtain ⟨carried, bounded⟩ := ih of.2 (fun symbol => by
      split
      next => exact positive_nonneg _
      next => exact nonneg symbol) beyond next
    rw [List.filter_cons, ownedOf_cons, totalOf_cons, ← carried, ← bounded]
    cases state : (written r now (joint cycle.symbol) (held cycle.symbol) cycle f s).state.closed with
    | false =>
      obtain ⟨carry, upper⟩ := settles.carries_open p asked (here.reopens state) state
      rw [if_pos (by simp), List.map_cons, totalOf_cons, totalOf_cons, carry, upper]
      exact ⟨rfl, rfl⟩
    | true =>
      have bare : f.upper = 0 := here.closes state
      obtain ⟨carry, upper⟩ := settles.carries_closed p asked bare state
      have owned : (written r now (joint cycle.symbol) (held cycle.symbol) cycle f s).columns.ownedQuantity =
        0 := (settles.nothing bare).1
      simp only [owned, bare, ite_self, zero_add]
      split
      next => simp only [List.map_cons, totalOf_cons, carry, upper, ite_self, zero_add, true_and]
      next => exact ⟨rfl, rfl⟩

end cycles

section refresh

variable {r : Reading} {p p' : Projection} {now : Instant} {asked : OwnedCycle → Bool}

/-- The refresh was asked to protect for no entry; it left no provisional credit that the position has
room for, and each of its cycles steady. -/
structure Steady (r : Reading) (p : Projection) : Prop where
  plain : r.protectBeforeBuy = none
  credit : evidenceIsReady r = true → ∀ symbol e, p.foreignEvidence.get? symbol = some e →
    e.unsettledExternalCredit = true → r.positions.getD symbol 0 - ownedOf p.cycles symbol <
      p.unownedPositions.getD symbol 0 + e.provisionalReduction.getD 0
  cycles : List.Forall₂ (SteadyCycle r (jointly r p)) (established r) p.cycles

theorem facts_fact (r : Reading) (debits : Dict String Debit) (deltas : Dict String ℚ)
    (cycles : List OwnedCycle) :
    ∀ k ∈ facts r debits deltas cycles, ∃ acquired delta, k.2 = (fact r acquired delta k.1).1 := by
  induction cycles generalizing deltas with
  | nil => simp [facts]
  | cons cycle rest ih =>
    rw [facts, List.forall_mem_cons]
    exact ⟨⟨_, _, rfl⟩, ih _⟩

theorem settleAll_createdAt {ready : Bool} {debits : Dict String Debit} {held remaining : String → ℚ}
    {joint : String → Bool} {known : List (OwnedCycle × Fact)} {cycles : List OwnedCycle}
    (settled : settleAll r now ready debits held joint remaining known = .ok cycles) :
    cycles.map OwnedCycle.createdAt = (known.map Prod.fst).map OwnedCycle.createdAt := by
  induction known generalizing remaining cycles with
  | nil => cases settled; rfl
  | cons k rest ih =>
    obtain ⟨cycle, f⟩ := k
    obtain ⟨s, others, -, next, rfl⟩ := settleAll_cons settled
    simp only [List.map_cons, ih next]
    rfl

/-- The written cycles are in the order in which they are read again. -/
theorem Projected.byCreation (projected : Projected r now p) (keep : OwnedCycle → Bool) :
    Scalp.byCreation (p.cycles.filter keep) = p.cycles.filter keep := by
  have sorted : (Scalp.byCreation r.cycles).Pairwise fun a b => decide (a.createdAt ≤ b.createdAt) :=
    List.pairwise_mergeSort (fun a b c first second => by
      simp only [decide_eq_true_eq] at first second ⊢
      exact first.trans second) (fun a b => by
      simp only [Bool.or_eq_true, decide_eq_true_eq]
      exact le_total _ _) r.cycles
  have dates := settleAll_createdAt projected.cycles
  rw [established, facts_cycles] at dates
  have ordered : (p.cycles.map OwnedCycle.createdAt).Pairwise (· ≤ ·) := by
    rw [dates, List.pairwise_map]
    exact sorted.imp fun h => of_decide_eq_true h
  refine List.mergeSort_of_pairwise (.filter _ ?_)
  exact (List.pairwise_map.mp ordered).imp fun h => decide_eq_true h

theorem Projected.established_again (projected : Projected r now p) : established (r.again p asked) =
    (p.cycles.filter fun c => !c.state.closed || asked c).map (rewritten r p asked) := by
  unfold established
  rw [show (r.again p asked).cycles = p.cycles.filter fun c => !c.state.closed || asked c from rfl,
    projected.byCreation]
  exact facts_again _ projected.nothing_acquired projected.nothing_disposed

/-- Nothing is given back or reserved a second time. -/
theorem Steady.protection_again (steady : Steady r p) (projected : Projected r now p) (symbol : String)
    (member : symbol ∈ debitSymbols r) :
    let again := protection (r.again p asked) (externalInventoryDebits (r.again p asked))
      (established (r.again p asked)) (evidenceIsReady r) symbol
    again.quantity = p.unownedPositions.get? symbol ∧
      again.evidence = (p.foreignEvidence.get? symbol).map fun e => { e with newBuys := 0 } := by
  obtain ⟨quantity, e, credit, of, debit⟩ := projected.debits_again asked member
  have held : p.unownedPositions.getD symbol 0 = quantity := congrArg (Option.getD · 0) of.held
  have carried := (totals_again p asked (facts_fact _ _ _ _) (unprotected_nonneg r p)
    steady.cycles projected.cycles symbol).1
  rw [← projected.established_again] at carried
  have plain : ¬(acquiredSymbol (externalInventoryDebits (r.again p asked)) symbol = true ∨
      (r.again p asked).protectBeforeBuy = some symbol) := by
    rw [projected.nothing_acquired, show (r.again p asked).protectBeforeBuy = none from steady.plain]
    simp
  have here : p.unownedPositions.get? symbol = some quantity := of.held
  have stored : p.foreignEvidence.get? symbol = some e := of.stored
  dsimp only
  rw [here, stored]
  unfold protection
  rw [debit]
  dsimp only
  by_cases ready : evidenceIsReady r = true
  case pos =>
    rw [if_pos ready, if_neg plain, carried]
    have spent : restoreCredit (r.positions.getD symbol 0 - ownedOf p.cycles symbol)
        ⟨some quantity, some { e with newBuys := 0 }⟩ = ⟨some quantity, some { e with newBuys := 0 }⟩ := by
      refine if_neg fun ⟨unsettled, fits⟩ => ?_
      have short := steady.credit ready symbol e of.stored unsettled
      rw [held] at short
      exact absurd fits (not_le.mpr short)
    exact ⟨congrArg Protection.quantity spent, congrArg Protection.evidence spent⟩
  case neg =>
    rw [if_neg ready]
    exact ⟨rfl, rfl⟩

/-- A refresh that follows a steady one changes nothing. -/
theorem Steady.again (steady : Steady r p) (projected : Projected r now p)
    (again : Projected (r.again p asked) now p') :
    List.Forall₂ OwnedCycle.Unchanged (r.again p asked).cycles p'.cycles ∧
      (∀ symbol, p'.unownedPositions.get? symbol = p.unownedPositions.get? symbol) ∧
      ∀ symbol, p'.foreignEvidence.get? symbol =
        (p.foreignEvidence.get? symbol).map fun e => { e with newBuys := 0 } := by
  have unowned (symbol : String) : p'.unownedPositions.get? symbol = p.unownedPositions.get? symbol := by
    rw [again.unowned]
    split
    next member => exact (steady.protection_again projected symbol (projected.symbols_again.mp member)).1
    next absent =>
      rw [projected.unowned, if_neg (mt projected.symbols_again.mpr absent)]
  refine ⟨?_, unowned, fun symbol => ?_⟩
  · have held : (p'.unownedPositions.getD · 0) = (p.unownedPositions.getD · (0 : ℚ)) := by
      funext symbol
      rw [Dict.getD, Dict.getD, unowned]
    have bounds (symbol : String) : totalOf Fact.upper (established (r.again p asked)) symbol =
        totalOf Fact.upper (established r) symbol := by
      rw [projected.established_again]
      exact (totals_again p asked (facts_fact _ _ _ _) (unprotected_nonneg r p) steady.cycles projected.cycles
        symbol).2
    have joint : jointly (r.again p asked) p' = jointly r p := by
      funext symbol
      rw [jointly, bounds, Dict.getD, Dict.getD, unowned]
      rfl
    have left : unprotected (r.again p asked) p' = unprotected r p := by
      funext symbol
      rw [unprotected, Dict.getD, unowned]
      rfl
    have later := again.cycles
    rw [held, joint, left, projected.established_again] at later
    exact settleAll_again (facts_fact _ _ _ _) (unprotected_nonneg r p) projected.nothing_acquired
      steady.cycles projected.cycles later
  · rw [again.evidence]
    split
    next member => exact (steady.protection_again projected symbol (projected.symbols_again.mp member)).2
    next absent =>
      rw [projected.evidence, if_neg (mt projected.symbols_again.mpr absent)]
      rfl

theorem refreshCycles_projects {synced : Reading} {later : Instant} {found : Found}
    (done : refreshCycles r synced now later found = .ok p) :
    project (if needsSync r then synced else r) (if needsSync r then later else now) = .ok p := by
  unfold refreshCycles at done
  split at done
  next sync =>
    obtain ⟨q, projected, same⟩ := bind_ok_iff.mp done
    rw [if_pos sync, if_pos sync, commit_same same]
    exact projected
  next quiet =>
    obtain ⟨q, projected, same⟩ := bind_ok_iff.mp done
    rw [if_neg quiet, if_neg quiet, commit_same same]
    exact projected

end refresh

section changes

/-- A refresh and the one right after it, as far as they complete. -/
def twice {α : Type} (r : Reading) (of : Projection → α) : Option (α × α) := do
  let found (account : AccountState) (version : Instant) : Found :=
    ⟨true, account.unownedPositions, account.foreignEvidence, account.ownershipPositions, fun _ => version⟩
  let p ← (refreshCycles r r 20 20 (found r.account 0)).toOption
  let next := r.again p fun _ => false
  let p' ← (refreshCycles next next 20 20 (found next.account 20)).toOption
  return (of p, of p')

def filledOrder (side : Side) (quantity : ℚ) (nonneg : 0 ≤ quantity) : OwnedOrder where
  intent := ⟨"v30-1", "cycle", "BTC/USD".toList, side, quantity⟩
  status := .broker .filled
  brokerOrderId := some "b1"
  broker := some { snapshotAt .filled quantity 0 with
    side := side, quantity := some quantity, sizeBasis := by simp }
  updatedAt := 0
  sound := by
    simp only [Option.mem_some_iff, forall_eq']
    constructor <;> simp [snapshotAt, nonneg]
    decide +kernel

/-- An account with a position of which some is protected, read up to date. -/
def accountReading (cycles : List OwnedCycle) (orders : String → List OwnedOrder) (position held : ℚ)
    (evidence : Evidence) : Reading :=
  { boughtReading with
    cycles := cycles
    orders := orders
    account := { boughtReading.account with
      unownedPositions := .ofList [("BTC/USD", held)]
      foreignEvidence := .ofList [("BTC/USD", evidence)]
      ownershipPositions := .ofList [("BTC/USD", position)] }
    positions := .ofList [("BTC/USD", position)] }

def storedCycle (id : String) (state : CycleState) (ledger : Ledger) (ownership : Ownership) : OwnedCycle :=
  { cycleId := id, symbol := "BTC/USD", createdAt := 0, updatedAt := 0, state := state, columns := ledger
    ownership := { ownership with version := some 2 } }

def settledEvidence : Evidence := { provisionalReduction := some 0 }

/-- Foreign buys that the first refresh is the one to see. -/
def acquiredReading : Reading :=
  { accountReading [] (fun _ => []) 5 0 settledEvidence with
    activities := [⟨"k", .fill, some .buy, some "BTC/USD", 5, none, some "b2", false, 5, 0, true, true⟩] }

theorem coins_nonneg : (0 : ℚ) ≤ 2 := zero_le_two

theorem dust_nonneg : (0 : ℚ) ≤ 39 / 20 := by norm_num

/-- A sold cycle of which a twentieth, below the smallest order, is still a pending buy. -/
def dustReading : Reading :=
  accountReading [storedCycle "a" .opened ⟨0, 2, 39 / 20, 0⟩
      { unresolvedBuyQuantity := some (1 / 20), balanceSettlementAllowed := some false }]
    (fun _ => [filledOrder .buy 2 coins_nonneg, filledOrder .sell (39 / 20) dust_nonneg]) (1 / 20) 0
    settledEvidence

/-- Two cycles that the position settles only together. -/
def mixedReading : Reading :=
  accountReading [storedCycle "a" .opened ⟨0, 2, 0, 0⟩ {}, storedCycle "b" .opened ⟨0, 2, 0, 0⟩ {}]
    (fun _ => [filledOrder .buy 2 coins_nonneg]) 4 0 settledEvidence

/-- A cycle that closes on a flat account, and a mixed one. -/
def flatReading : Reading :=
  accountReading [storedCycle "a" .opened ⟨0, 3, 2, 0⟩
      { establishedEntitlement := some 0, balanceSettlementAllowed := some false },
      storedCycle "b" .opened ⟨0, 2, 2, 0⟩ { mixedFlowPending := some true }]
    (fun id => [filledOrder .buy (if id = "a" then 3 else 2) (by split <;> norm_num),
      filledOrder .sell 2 coins_nonneg]) 3 3 settledEvidence

/-- A closed cycle with an order not yet over, before the activities are read. -/
def reopenedReading : Reading :=
  let closed := accountReading [storedCycle "a" .closedOwnedFlat ⟨0, 2, 2, 0⟩ {}]
    (fun _ => [filledOrder .buy 2 coins_nonneg,
      { filledOrder .sell 2 coins_nonneg with status := .approved }]) 0 0 settledEvidence
  { closed with account := { closed.account with activityInitialComplete := false } }

/-- A provisional credit for which the dust that closes makes room. -/
def creditReading : Reading :=
  accountReading [storedCycle "a" .opened ⟨1 / 20, 2, 39 / 20, 0⟩ { balanceSettlementAllowed := some false }]
    (fun _ => [filledOrder .buy 2 coins_nonneg, filledOrder .sell (39 / 20) dust_nonneg]) (1 / 10) (1 / 20)
    { provisionalReduction := some (1 / 20), unsettledExternalCredit := true }

/-- A refresh before an entry, in which the cycle grows to its entitlement. -/
def entryReading : Reading :=
  { accountReading [storedCycle "a" .opened ⟨3, 5, 0, 0⟩
        { establishedEntitlement := some 5, balanceSettlementAllowed := some false }]
      (fun _ => [filledOrder .buy 5 (by norm_num)]) 10 2 settledEvidence with
    protectBeforeBuy := some "BTC/USD" }

/-- The order of creation, where nothing is out of it: this one evaluates. -/
def inOrder (cycles : List OwnedCycle) : List OwnedCycle :=
  if cycles.Pairwise fun a b => decide (a.createdAt ≤ b.createdAt) then cycles else byCreation cycles

theorem byCreation_inOrder (cycles : List OwnedCycle) : byCreation cycles = inOrder cycles := by
  unfold inOrder
  split
  next ordered => exact List.mergeSort_of_pairwise ordered
  next => rfl

end changes

end TradeAgent.Scalp
