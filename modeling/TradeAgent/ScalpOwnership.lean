import TradeAgent.ScalpRefresh

/-! What a completed refresh lets a cycle own stays within its acknowledged buys less its
acknowledged sells: the charges recorded against a cycle are never negative, so every bound
the passes draw on lies below that net. -/
namespace TradeAgent.Scalp

/-- The fees and disposals a stored cycle was charged. -/
structure OwnedCycle.Charged (cycle : OwnedCycle) : Prop where
  fee : 0 ≤ cycle.ownership.provenBaseFees.getD ((cycle.ledger.map Ledger.actualBaseFees).getD 0)
  disposal : 0 ≤ cycle.ownership.provenExternalDisposals.getD 0

def netBought (rows : List OwnedOrder) : ℚ := filledOn .buy rows - filledOn .sell rows

/-- Every bound of a fact lies below the net, and its charges are not negative. -/
structure Fact.Capped (f : Fact) (net : ℚ) : Prop where
  upper : f.upper ≤ positive net
  claim : f.claim ≤ positive net
  safeCarry : f.safeCarry ≤ positive net
  provenFee : 0 ≤ f.provenFee
  disposal : 0 ≤ f.disposal

theorem positive_mono {x y : ℚ} (le : x ≤ y) : positive x ≤ positive y := max_le_max_left 0 le

theorem chargedDisposal_nonneg {closed : Bool} {delta room : ℚ} (nonneg : 0 ≤ delta) :
    0 ≤ chargedDisposal closed delta room := by
  unfold chargedDisposal
  split
  next => exact le_refl _
  next => exact le_min nonneg (positive_nonneg _)

theorem fact_capped (r : Reading) (acquired : Bool) {delta : ℚ} {cycle : OwnedCycle}
    (charged : cycle.Charged) (nonneg : 0 ≤ delta) :
    (fact r acquired delta cycle).1.Capped (netBought (r.orders cycle.cycleId)) := by
  have fee : ∀ paid : ℚ, 0 ≤ max paid
      (cycle.ownership.provenBaseFees.getD ((cycle.ledger.map Ledger.actualBaseFees).getD 0)) :=
    fun _ => le_max_of_le_right charged.fee
  have disposal : ∀ closed room, 0 ≤ cycle.ownership.provenExternalDisposals.getD 0 +
      chargedDisposal closed delta room :=
    fun _ _ => add_nonneg charged.disposal (chargedDisposal_nonneg nonneg)
  have bounded : ∀ paid closed room, positive (filledOn .buy (r.orders cycle.cycleId) -
      filledOn .sell (r.orders cycle.cycleId) - max paid (cycle.ownership.provenBaseFees.getD
        ((cycle.ledger.map Ledger.actualBaseFees).getD 0)) -
      (cycle.ownership.provenExternalDisposals.getD 0 + chargedDisposal closed delta room)) ≤
      positive (netBought (r.orders cycle.cycleId)) := by
    intro paid closed room
    exact positive_mono (by unfold netBought; linarith [fee paid, disposal closed room])
  constructor
  case upper =>
    dsimp only [fact]
    split
    next => exact positive_nonneg _
    next => exact bounded _ _ _
  case claim =>
    dsimp only [fact]
    split
    next => exact positive_nonneg _
    next => exact (min_le_left _ _).trans (bounded _ _ _)
  case safeCarry =>
    dsimp only [fact]
    split
    next => exact positive_nonneg _
    next => exact ((min_le_left _ _).trans (min_le_left _ _)).trans (bounded _ _ _)
  case provenFee => exact fee _
  case disposal => exact disposal _ _

theorem facts_cycles (r : Reading) (debits : Dict String Debit) (deltas : Dict String ℚ)
    (cycles : List OwnedCycle) : (facts r debits deltas cycles).map Prod.fst = cycles := by
  induction cycles generalizing deltas with
  | nil => rfl
  | cons cycle rest ih => simp [facts, ih]

theorem facts_capped (r : Reading) (debits : Dict String Debit) {deltas : Dict String ℚ}
    {cycles : List OwnedCycle} (charged : ∀ c ∈ cycles, c.Charged)
    (nonneg : ∀ symbol, 0 ≤ deltas.getD symbol 0) :
    ∀ k ∈ facts r debits deltas cycles, k.2.Capped (netBought (r.orders k.1.cycleId)) := by
  induction cycles generalizing deltas with
  | nil => simp [facts]
  | cons cycle rest ih =>
    rw [List.forall_mem_cons] at charged
    simp only [facts, List.forall_mem_cons]
    refine ⟨fact_capped r _ charged.1 (nonneg _), ih charged.2 fun symbol => ?_⟩
    simp only [Dict.getD, Dict.get?_set]
    split
    next => exact positive_nonneg _
    next => exact nonneg symbol

section Settle

variable {f : Fact} {observed net : ℚ}

theorem settleFromPosition_capped (capped : f.Capped net) (feeEvidence acquired grow : Bool) :
    (settleFromPosition f observed feeEvidence acquired grow).owned ≤ positive net := by
  unfold settleFromPosition
  dsimp only
  split
  next under => exact (min_le_right _ _).trans (under.trans capped.upper)
  next => split <;> exact (min_le_left _ _).trans capped.safeCarry

theorem settleClaim_capped (capped : f.Capped net) (grow : Bool) (sold : ℚ) (rows : List OwnedOrder)
    (dustLimit : ℚ) : (settleClaim f observed grow sold rows dustLimit).owned ≤ positive net := by
  unfold settleClaim
  dsimp only
  split
  next => exact positive_nonneg _
  next => exact (min_le_left _ _).trans capped.claim

theorem settle_capped {r : Reading} {evidenceReady jointSettled acquired : Bool} {cycle : OwnedCycle}
    {s : Settled} (capped : f.Capped net)
    (settled : settle r evidenceReady jointSettled acquired cycle f observed = .ok s) :
    s.owned ≤ positive net := by
  unfold settle at settled
  dsimp only at settled
  repeat' split at settled
  all_goals cases settled
  next => exact positive_nonneg _
  next => exact (min_le_left _ _).trans capped.safeCarry
  next => exact (min_le_left _ _).trans capped.safeCarry
  next => exact (min_le_left _ _).trans capped.upper
  next => exact (min_le_left _ _).trans capped.upper
  next => exact settleFromPosition_capped capped _ _ _
  next => exact settleClaim_capped capped _ _ _ _

end Settle

/-- How the second pass writes one cycle of the first. -/
def WrittenFrom (r : Reading) (now : Instant) (k : OwnedCycle × Fact) (cycle : OwnedCycle) : Prop :=
  ∃ evidenceReady jointSettled acquired observed held s,
    settle r evidenceReady jointSettled acquired k.1 k.2 observed = .ok s ∧
    cycle = written r now jointSettled held k.1 k.2 s

theorem settleAll_written {r : Reading} {now : Instant} {evidenceReady : Bool}
    {debits : Dict String Debit} {held : String → ℚ} {jointSettled : String → Bool}
    {remaining : String → ℚ} {known : List (OwnedCycle × Fact)} {cycles : List OwnedCycle}
    (settled : settleAll r now evidenceReady debits held jointSettled remaining known = .ok cycles) :
    List.Forall₂ (WrittenFrom r now) known cycles := by
  induction known generalizing remaining cycles with
  | nil => cases settled; exact .nil
  | cons k rest ih =>
    obtain ⟨cycle, f⟩ := k
    rw [settleAll] at settled
    split at settled
    next => cases settled
    next =>
      cases first : settle r evidenceReady (jointSettled cycle.symbol)
          (acquiredSymbol debits cycle.symbol) cycle f (remaining cycle.symbol) with
      | error e => rw [first] at settled; cases settled
      | ok s =>
        cases others : settleAll r now evidenceReady debits held jointSettled
            (fun symbol => if symbol = cycle.symbol then positive (remaining symbol - s.owned)
              else remaining symbol) rest with
        | error e => simp only [first, others, bind, Except.bind] at settled; cases settled
        | ok later =>
          simp only [first, others, bind, Except.bind, pure, Except.pure, Except.ok.injEq] at settled
          subst settled
          exact .cons ⟨_, _, _, _, _, s, first, rfl⟩ (ih others)

theorem debits_disposal_nonneg (r : Reading) (symbol : String) :
    0 ≤ (Dict.ofList ((externalInventoryDebits r).entries.map fun e => (e.1, e.2.disposal))).getD
      symbol 0 := by
  unfold Dict.getD
  cases found : (Dict.ofList ((externalInventoryDebits r).entries.map fun e =>
      (e.1, e.2.disposal))).get? symbol with
  | none => exact le_refl _
  | some value =>
    obtain ⟨e, stored, same⟩ := List.mem_map.mp (Dict.mem_ofList (Dict.mem_entries.mpr found))
    obtain ⟨_, -, rfl⟩ := List.mem_map.mp (Dict.mem_ofList stored)
    cases same
    exact positive_nonneg _

/-- A cycle as a refresh leaves it: it owns no more than the net of its orders, and nothing
once it is closed. -/
structure OwnedCycle.Covered (cycle : OwnedCycle) (rows : List OwnedOrder) : Prop where
  within : ledgerAmount cycle Ledger.ownedQuantity ≤ positive (netBought rows)
  closed : cycle.state.closed → ledgerAmount cycle Ledger.ownedQuantity ≤ 0

theorem OwnedOrder.acknowledged_nonneg (order : OwnedOrder) : 0 ≤ order.acknowledged := by
  unfold OwnedOrder.acknowledged previousQuantity
  cases stored : order.broker with
  | none => exact le_refl _
  | some s => exact (order.sound s stored).nonneg

theorem OwnedOrder.acknowledged_within (order : OwnedOrder) (nonneg : 0 ≤ order.intent.quantity) :
    order.acknowledged ≤ order.intent.quantity := by
  unfold OwnedOrder.acknowledged previousQuantity
  cases stored : order.broker with
  | none => exact nonneg
  | some s => exact (order.sound s stored).within

theorem filledOn_nonneg (side : Side) (rows : List OwnedOrder) : 0 ≤ filledOn side rows := by
  refine List.sum_nonneg fun x member => ?_
  obtain ⟨row, -, rfl⟩ := List.mem_map.mp member
  exact row.acknowledged_nonneg

/-- A cycle is closed only with nothing owned, or when nothing was ever bought. -/
theorem nextState_closed {cycle : OwnedCycle} {rows : List OwnedOrder} {s : Settled} {closed : Bool}
    {sold position held : ℚ}
    (ended : (nextState cycle rows s closed (filledOn .buy rows) sold position held).closed) :
    s.owned = 0 ∨ filledOn .buy rows = 0 := by
  unfold nextState at ended
  dsimp only at ended
  split at ended
  next noFill =>
    rcases noFill with empty | ⟨-, nothing⟩
    · rw [List.isEmpty_iff] at empty
      exact .inr (by simp [filledOn, empty])
    · exact .inr nothing
  next =>
    split at ended
    next => cases ended
    next =>
      split at ended
      next flat => exact .inl flat.2.1
      next => repeat' split at ended
              all_goals cases ended

theorem WrittenFrom.covered {r : Reading} {now : Instant} {k : OwnedCycle × Fact} {cycle : OwnedCycle}
    (from_ : WrittenFrom r now k cycle) (capped : k.2.Capped (netBought (r.orders k.1.cycleId))) :
    cycle.cycleId = k.1.cycleId ∧ cycle.Charged ∧ cycle.Covered (r.orders k.1.cycleId) := by
  obtain ⟨evidenceReady, jointSettled, acquired, observed, held, s, settled, rfl⟩ := from_
  have within := settle_capped capped settled
  refine ⟨rfl, ⟨capped.provenFee, capped.disposal⟩, within, fun ended => ?_⟩
  rcases nextState_closed ended with nothing | nothing
  · exact nothing.le
  · refine le_trans within (max_le (le_refl _) ?_)
    rw [netBought, nothing]
    linarith [filledOn_nonneg .sell (r.orders k.1.cycleId)]

theorem project_covered {r : Reading} {now : Instant} {p : Projection} (done : project r now = .ok p)
    (charged : ∀ c ∈ r.cycles, c.Charged) :
    (∀ c ∈ p.cycles, c.Charged ∧ c.Covered (r.orders c.cycleId)) ∧
    p.cycles.map OwnedCycle.cycleId = (byCreation r.cycles).map OwnedCycle.cycleId := by
  unfold project at done
  cases ready : evidenceReady r with
  | error e => rw [ready] at done; cases done
  | ok ready =>
    simp only [ready, bind, Except.bind, pure, Except.pure] at done
    split at done
    next => cases done
    next cycles settled =>
      cases done
      have sorted : ∀ c ∈ byCreation r.cycles, c.Charged :=
        fun c member => charged c (List.mem_mergeSort.mp member)
      have capped := facts_capped r (externalInventoryDebits r) sorted (debits_disposal_nonneg r)
      have wrote := settleAll_written settled
      have cyclesOf := facts_cycles r (externalInventoryDebits r)
        (.ofList ((externalInventoryDebits r).entries.map fun e => (e.1, e.2.disposal)))
        (byCreation r.cycles)
      rw [← cyclesOf]
      generalize facts r _ _ _ = known at capped wrote
      clear cyclesOf settled
      induction wrote with
      | nil => exact ⟨by simp, rfl⟩
      | cons from_ _ ih =>
        rw [List.forall_mem_cons] at capped
        obtain ⟨same, kept, covered⟩ := from_.covered capped.1
        obtain ⟨all, ids⟩ := ih capped.2
        exact ⟨by rw [List.forall_mem_cons]; exact ⟨⟨kept, same ▸ covered⟩, all⟩, by simp [same, ids]⟩

end TradeAgent.Scalp
