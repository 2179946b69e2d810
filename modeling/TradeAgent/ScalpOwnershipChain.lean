import TradeAgent.Library.Procedure
import TradeAgent.ScalpOwnership

/-! The bounds of a cycle form one chain, whichever branch a refresh takes: what it owns, the
entitlement it has established, the bound on its acknowledged net, and what its orders leave after the
fees and disposals that are proven. These two only grow from one refresh to the next. -/
namespace TradeAgent.Scalp

/-- The base fees and the external disposals that a stored cycle was charged. -/
def OwnedCycle.chargedFees (cycle : OwnedCycle) : ℚ :=
  cycle.ownership.provenBaseFees.getD ((cycle.ledger.map Ledger.actualBaseFees).getD 0)

def OwnedCycle.chargedDisposals (cycle : OwnedCycle) : ℚ :=
  cycle.ownership.provenExternalDisposals.getD 0

/-- The bounds of a fact in order. -/
structure Fact.Chained (f : Fact) (net : ℚ) : Prop where
  claimNonneg : 0 ≤ f.claim
  safeCarry : f.safeCarry ≤ f.claim
  claim : f.claim ≤ f.upper
  upper : f.upper ≤ positive (net - f.provenFee - f.disposal)

/-- A closed cycle claims nothing, and keeps its bound only for a recovery. -/
theorem withdrawn_le {closed recovery : Bool} {carry upper : ℚ} (nonneg : 0 ≤ upper) (le : carry ≤ upper) :
    (if closed then 0 else carry) ≤ (if closed && !recovery then 0 else upper) := by
  cases closed
  · simpa using le
  · cases recovery
    · simp
    · simpa using nonneg

theorem fact_chained (r : Reading) (acquired : Bool) (delta : ℚ) (cycle : OwnedCycle) :
    (fact r acquired delta cycle).1.Chained (netBought (r.orders cycle.cycleId)) := by
  have bounded := fact_bounded r acquired delta cycle
  constructor
  case claimNonneg => exact bounded.claim
  case safeCarry =>
    dsimp only [fact]
    split
    next => exact le_rfl
    next => exact min_le_left _ _
  case claim => exact withdrawn_le (positive_nonneg _) (min_le_left _ _)
  case upper =>
    dsimp only [fact]
    split
    next => exact positive_nonneg _
    next => exact (congrArg positive (by unfold netBought; ring)).le

/-- What a refresh charges a cycle with is no less than what it had been charged. -/
theorem fact_charges (r : Reading) (acquired : Bool) {delta : ℚ} (nonneg : 0 ≤ delta) (cycle : OwnedCycle) :
    cycle.chargedFees ≤ (fact r acquired delta cycle).1.provenFee ∧
      cycle.chargedDisposals ≤ (fact r acquired delta cycle).1.disposal :=
  ⟨le_max_right _ _, le_add_of_nonneg_right (chargedDisposal_nonneg nonneg)⟩

theorem facts_chained (r : Reading) (debits : Dict String Debit) {deltas : Dict String ℚ}
    (cycles : List OwnedCycle) (nonneg : ∀ symbol, 0 ≤ deltas.getD symbol 0) :
    ∀ k ∈ facts r debits deltas cycles, k.2.Chained (netBought (r.orders k.1.cycleId)) ∧
      k.1.chargedFees ≤ k.2.provenFee ∧ k.1.chargedDisposals ≤ k.2.disposal := by
  induction cycles generalizing deltas with
  | nil => simp [facts]
  | cons cycle rest ih =>
    simp only [facts, List.forall_mem_cons]
    refine ⟨⟨fact_chained _ _ _ _, fact_charges r _ (nonneg _) cycle⟩, ih fun symbol => ?_⟩
    simp only [Dict.getD, Dict.get?_set]
    split
    next => exact positive_nonneg _
    next => exact nonneg symbol

section settlements

variable {f : Fact} {observed net : ℚ}

/-- A settlement in order, below its fact's bound. -/
structure Settled.Chained (s : Settled) (f : Fact) : Prop where
  owned : s.owned ≤ s.claim
  claim : s.claim ≤ s.cap
  cap : s.cap ≤ f.upper

theorem settleSafe_chained (chained : f.Chained net) (grow : Bool) (settlement : Settlement) :
    (settleSafe f observed grow settlement).Chained f where
  owned := (min_le_left _ _).trans chained.safeCarry
  claim := chained.claim
  cap := le_rfl

theorem settleFromPosition_chained (chained : f.Chained net) (feeEvidence acquired grow : Bool) :
    (settleFromPosition f observed feeEvidence acquired grow).Chained f := by
  unfold settleFromPosition
  dsimp only
  split
  next under =>
    refine ⟨min_le_left _ _, ?_, le_rfl⟩
    dsimp only
    split
    next => exact le_rfl
    next => exact max_le chained.claim under
  next =>
    split
    next => exact ⟨(min_le_left _ _).trans chained.safeCarry, chained.claim, le_rfl⟩
    next => exact ⟨(min_le_left _ _).trans chained.safeCarry, chained.claim, le_rfl⟩

theorem settleClaim_chained (chained : f.Chained net) (grow : Bool) (sold : ℚ) (rows : List OwnedOrder)
    (dustLimit : ℚ) : (settleClaim f observed grow sold rows dustLimit).Chained f := by
  unfold settleClaim
  dsimp only
  split
  next => exact ⟨le_rfl, le_rfl, chained.claimNonneg.trans chained.claim⟩
  next => exact ⟨min_le_left _ _, chained.claim, le_rfl⟩

/-- Whichever branch settles a cycle. -/
theorem settle_chained {r : Reading} {evidenceReady jointSettled acquired : Bool} {cycle : OwnedCycle}
    {s : Settled} (chained : f.Chained net)
    (settled : settle r evidenceReady jointSettled acquired cycle f observed = .ok s) : s.Chained f := by
  unfold settle at settled
  dsimp only at settled
  repeat' split at settled
  all_goals cases settled
  next => exact ⟨le_rfl, chained.claimNonneg.trans chained.claim, le_rfl⟩
  next => exact settleSafe_chained chained _ _
  next => exact settleSafe_chained chained _ _
  next => exact ⟨min_le_left _ _, le_rfl, le_rfl⟩
  next => exact ⟨min_le_left _ _, le_rfl, le_rfl⟩
  next => exact settleFromPosition_chained chained _ _ _
  next => exact settleClaim_chained chained _ _ _ _

end settlements

/-- A written cycle: its bounds in order, up to what its orders leave after its proven charges. -/
structure OwnedCycle.Chained (cycle : OwnedCycle) (rows : List OwnedOrder) : Prop where
  nonneg : 0 ≤ ledgerAmount cycle Ledger.ownedQuantity
  ordered : ∃ entitlement ∈ cycle.ownership.establishedEntitlement,
    ∃ bound ∈ cycle.ownership.acknowledgedNetUpperBound,
    ∃ fees ∈ cycle.ownership.provenBaseFees, ∃ disposals ∈ cycle.ownership.provenExternalDisposals,
      ledgerAmount cycle Ledger.ownedQuantity ≤ entitlement ∧ entitlement ≤ bound ∧
      bound ≤ max 0 (filledOn .buy rows - filledOn .sell rows - fees - disposals)

theorem WrittenFrom.chained {r : Reading} {now : Instant} {k : OwnedCycle × Fact} {cycle : OwnedCycle}
    (from_ : WrittenFrom r now k cycle) (chained : k.2.Chained (netBought (r.orders k.1.cycleId)))
    (nonneg : 0 ≤ cycle.columns.ownedQuantity) : cycle.Chained (r.orders k.1.cycleId) := by
  obtain ⟨evidenceReady, jointSettled, acquired, observed, held, s, settled, rfl⟩ := from_
  have ordered := settle_chained chained settled
  exact ⟨nonneg, s.claim, rfl, s.cap, rfl, k.2.provenFee, rfl, k.2.disposal, rfl, ordered.owned,
    ordered.claim, ordered.cap.trans chained.upper⟩

theorem forall₂_exists_left {α β : Type*} {R : α → β → Prop} {xs : List α} {ys : List β}
    (related : List.Forall₂ R xs ys) {y : β} (member : y ∈ ys) : ∃ x ∈ xs, R x y := by
  induction related with
  | nil => cases member
  | cons head _ ih =>
    rcases List.mem_cons.mp member with rfl | later
    · exact ⟨_, List.mem_cons_self, head⟩
    · obtain ⟨x, inside, holds⟩ := ih later
      exact ⟨x, List.mem_cons_of_mem _ inside, holds⟩

/-- Each written cycle comes from one that was read, with no lower charges. -/
structure Recharged (r : Reading) (before after : OwnedCycle) : Prop where
  cycleId : after.cycleId = before.cycleId
  chained : after.Chained (r.orders before.cycleId)
  fees : before.chargedFees ≤ after.chargedFees
  disposals : before.chargedDisposals ≤ after.chargedDisposals

theorem project_recharged {r : Reading} {now : Instant} {p : Projection} (done : project r now = .ok p) :
    List.Forall₂ (Recharged r) (byCreation r.cycles) p.cycles := by
  have nonneg := (project_within done).1
  unfold project at done
  cases ready : evidenceReady r with
  | error e => rw [ready] at done; cases done
  | ok ready =>
    simp only [ready, bind, Except.bind, pure, Except.pure] at done
    split at done
    next => cases done
    next cycles settled =>
      cases done
      have chained := facts_chained r (externalInventoryDebits r) (byCreation r.cycles)
        (debits_disposal_nonneg r)
      have wrote := settleAll_written settled
      have cyclesOf := facts_cycles r (externalInventoryDebits r)
        (.ofList ((externalInventoryDebits r).entries.map fun e => (e.1, e.2.disposal)))
        (byCreation r.cycles)
      rw [← cyclesOf]
      generalize facts r _ _ _ = known at chained wrote
      clear cyclesOf settled
      induction wrote with
      | nil => exact .nil
      | cons from_ _ ih =>
        rw [List.forall_mem_cons] at chained nonneg
        obtain ⟨⟨bounds, fees, disposals⟩, others⟩ := chained
        refine .cons ?_ (ih nonneg.2 others)
        have ordered := from_.chained bounds nonneg.1
        obtain ⟨_, _, _, _, _, s, -, rfl⟩ := from_
        exact ⟨rfl, ordered, fees, disposals⟩

theorem refreshCycles_recharged {r synced : Reading} {now later : Instant} {found : Found} {p : Projection}
    (done : refreshCycles r synced now later found = .ok p) :
    let read := if needsSync r then synced else r
    List.Forall₂ (Recharged read) (byCreation read.cycles) p.cycles := by
  have committed : ∀ {r : Reading} {now : Instant}, (project r now >>= commit r found) = .ok p →
      project r now = .ok p := by
    intro r now done
    obtain ⟨q, projected, same⟩ := bind_ok_iff.mp done
    rw [commit_same same]
    exact projected
  unfold refreshCycles at done
  split at done
  next sync =>
    simp only [sync, if_true]
    exact project_recharged (committed done)
  next quiet =>
    simp only [quiet]
    exact project_recharged (committed done)

/-- The stored cycles, each under its own id. -/
structure CycleTable where
  rows : Dict String OwnedCycle
  keyed : ∀ cycleId cycle, rows.get? cycleId = some cycle → cycle.cycleId = cycleId

/-- A refresh: what it is asked for, and what it reads besides the stored cycles, before and after it
synchronised the activities. -/
structure Refresh where
  reading : Reading
  extra : List String
  synced : Reading
  refreshed : List String
  now : Instant
  later : Instant
  found : Found

namespace CycleTable

variable (t : CycleTable)

/-- The active cycles and those asked for. -/
def read (r : Reading) (extra : List String) : Reading :=
  { r with cycles := t.rows.values.filter fun c => !c.state.closed || c.cycleId ∈ extra }

def project (f : Refresh) : Except RefreshError Projection :=
  refreshCycles (t.read f.reading f.extra) (t.read f.synced (f.extra ++ f.refreshed)) f.now f.later f.found

def write (cycles : List OwnedCycle) : CycleTable where
  rows := t.rows.update (cycles.map fun c => (c.cycleId, c))
  keyed := by
    intro cycleId cycle found
    rcases Dict.get?_update found with new | ⟨old, -⟩
    · obtain ⟨c, -, same⟩ := List.mem_map.mp new
      cases same
      rfl
    · exact t.keyed cycleId cycle old

/-- A refresh writes all its cycles or, where it raises, none. -/
def refresh (f : Refresh) : CycleTable :=
  match t.project f with
  | .ok p => t.write p.cycles
  | .error _ => t

def refreshAll (fs : List Refresh) : CycleTable := fs.foldl refresh t

end CycleTable

theorem CycleTable.mem_values {t : CycleTable} {cycle : OwnedCycle} (member : cycle ∈ t.rows.values) :
    t.rows.get? cycle.cycleId = some cycle := by
  obtain ⟨key, stored⟩ := Dict.mem_values.mp member
  rw [t.keyed key cycle stored]
  exact stored

theorem CycleTable.refresh_charges (t : CycleTable) (f : Refresh) {cycleId : String} {cycle : OwnedCycle}
    (stored : t.rows.get? cycleId = some cycle) :
    ∃ next, (t.refresh f).rows.get? cycleId = some next ∧ cycle.chargedFees ≤ next.chargedFees ∧
      cycle.chargedDisposals ≤ next.chargedDisposals := by
  unfold CycleTable.refresh
  split
  next p done =>
    have present : ((t.write p.cycles).rows.get? cycleId).isSome :=
      (Dict.isSome_update _ _ _).mpr (.inl (by rw [stored]; rfl))
    obtain ⟨next, found⟩ := Option.isSome_iff_exists.mp present
    refine ⟨next, found, ?_⟩
    rcases Dict.get?_update found with new | ⟨old, -⟩
    · obtain ⟨c, written, same⟩ := List.mem_map.mp new
      cases same
      obtain ⟨before, read, recharged⟩ := forall₂_exists_left (refreshCycles_recharged done) written
      have member : before ∈ t.rows.values := by
        split at read
        · exact List.mem_of_mem_filter (List.mem_mergeSort.mp read)
        · exact List.mem_of_mem_filter (List.mem_mergeSort.mp read)
      have found := CycleTable.mem_values member
      rw [← recharged.cycleId, stored] at found
      obtain rfl := Option.some.inj found
      exact ⟨recharged.fees, recharged.disposals⟩
    · obtain rfl := Option.some.inj (stored.symm.trans old)
      exact ⟨le_rfl, le_rfl⟩
  next => exact ⟨cycle, stored, le_rfl, le_rfl⟩

/-- Every cycle that a completed refresh writes keeps its bounds in order, and over any sequence of
refreshes no cycle's proven fees or external disposals fall. -/
theorem refresh_ownership_chain :
    (∀ r synced now later found p, refreshCycles r synced now later found = .ok p →
      ∀ cycle ∈ p.cycles, cycle.Chained ((if needsSync r then synced else r).orders cycle.cycleId)) ∧
    ∀ (t : CycleTable) (fs : List Refresh) (cycleId : String) (cycle : OwnedCycle),
      t.rows.get? cycleId = some cycle → ∃ next, (t.refreshAll fs).rows.get? cycleId = some next ∧
        cycle.chargedFees ≤ next.chargedFees ∧ cycle.chargedDisposals ≤ next.chargedDisposals := by
  constructor
  · intro r synced now later found p done cycle written
    obtain ⟨before, -, recharged⟩ := forall₂_exists_left (refreshCycles_recharged done) written
    rw [recharged.cycleId]
    exact recharged.chained
  · intro t fs
    induction fs generalizing t with
    | nil => exact fun cycleId cycle stored => ⟨cycle, stored, le_rfl, le_rfl⟩
    | cons f rest ih =>
      intro cycleId cycle stored
      obtain ⟨middle, present, fees, disposals⟩ := t.refresh_charges f stored
      obtain ⟨next, found, fees', disposals'⟩ := ih (t.refresh f) cycleId middle present
      exact ⟨next, found, fees.trans fees', disposals.trans disposals'⟩

end TradeAgent.Scalp
