import Mathlib.Data.List.Induction
import TradeAgent.ScalpOrder
import TradeAgent.Library.Dict
import TradeAgent.Library.Procedure

/-! The reference execution of an audit: hypothetical fills against the quotes displayed, one capacity per account, quote
and side. -/
namespace TradeAgent.Reference

open Scalp (Stamp)

structure ReferenceSession where
  openedAt : Instant
  closedAt : Instant
  ordered : openedAt < closedAt
  deriving DecidableEq

inductive PriceBasis where
  | raw | adjusted | unknown
  deriving DecidableEq, Repr

inductive SizeUnits where
  | shares | roundLots | unknown
  deriving DecidableEq, Repr

inductive EvidenceKind where
  | synthetic | normalizedObservation | rawProviderResponse
  deriving DecidableEq, Repr

@[ext] structure ReferenceQuote where
  eventId : String
  symbol : String
  eventAt : Instant
  providerAt : Instant
  receivedAt : Instant
  bid : ℚ
  ask : ℚ
  bidSize : ℚ
  askSize : ℚ
  priceBasis : PriceBasis := .unknown
  sizeUnits : SizeUnits := .unknown
  roundLotSize : Option ℚ := none
  sizeProvenance : Option String := none
  source : String
  evidenceKind : EvidenceKind
  bidPositive : 0 < bid
  askPositive : 0 < ask
  bidSizeNonneg : 0 ≤ bidSize
  askSizeNonneg : 0 ≤ askSize
  lotPositive : ∀ lot ∈ roundLotSize, 0 < lot
  uncrossed : bid ≤ ask
  clocks : eventAt ≤ providerAt ∧ providerAt ≤ receivedAt

instance : DecidableEq ReferenceQuote := fun _ _ => decidable_of_iff _ ReferenceQuote.ext_iff.symm

def ReferenceQuote.displayedShares (quote : ReferenceQuote) (side : Side) : Option ℚ :=
  if (quote.sizeProvenance.getD "" = "") ∨ quote.sizeUnits = .unknown then none
  else
    let size := if side = .buy then quote.askSize else quote.bidSize
    if quote.sizeUnits = .shares then some size
    else quote.roundLotSize.map fun lot => context (size * lot)

def ReferenceQuote.price (quote : ReferenceQuote) (side : Side) : ℚ :=
  if side = .buy then quote.ask else quote.bid

@[ext] structure ReferenceOrder where
  accountId : String
  orderId : String
  symbol : String
  side : Side
  quantity : ℚ
  decisionAt : Instant
  arrivalAt : Instant
  fractionable : Bool
  limitPrice : Option ℚ := none
  maximumWaitSeconds : ℕ := 60
  quantityPositive : 0 < quantity
  limitPositive : ∀ limit ∈ limitPrice, 0 < limit
  causal : decisionAt ≤ arrivalAt
  nineDecimals : (quantity * 10 ^ 9).den = 1
  whole : fractionable = false → quantity.den = 1

instance : DecidableEq ReferenceOrder := fun _ _ => decidable_of_iff _ ReferenceOrder.ext_iff.symm

structure ReferenceFill where
  quoteId : String
  timestamp : Instant
  quantity : ℚ
  price : ℚ
  deriving DecidableEq

inductive Status where
  | filled | cancelled | partly | unavailable
  deriving DecidableEq, Repr

structure ReferenceExecution where
  status : Status
  eligibleAt : Option Instant
  fills : List ReferenceFill := []
  remainingQuantity : ℚ
  reason : Option String := none
  deriving DecidableEq

/-- A value error, by its text. -/
structure Fault where
  text : String
  deriving DecidableEq, Repr

/-- The first session, by its opening, that is not over when the order arrives. -/
def firstEligibleArrival (arrivalAt : Instant) (sessions : List ReferenceSession) : Option Instant :=
  ((sessions.insertionSort fun a b => a.openedAt ≤ b.openedAt).find? fun session => arrivalAt < session.closedAt).map
    fun session => max arrivalAt session.openedAt

/-- The shares used of a quote, by account, quote and side. -/
abbrev Depletion := Dict (String × String × Side) ℚ

structure Call where
  order : ReferenceOrder
  quotes : List ReferenceQuote
  sessions : List ReferenceSession
  cancelAt : Option Stamp := none
  deriving DecidableEq

/-- A quote beside those of its name so far. -/
def identify (seen : Dict String ReferenceQuote) (quote : ReferenceQuote) :
    Except Fault (Dict String ReferenceQuote) :=
  if ∃ other ∈ seen.get? quote.eventId, quote ≠ other then .error ⟨"conflicting quote identity"⟩
  else .ok (seen.set quote.eventId quote)

/-- By event time, then by name. -/
def ReferenceQuote.before (a b : ReferenceQuote) : Prop :=
  a.eventAt < b.eventAt ∨ a.eventAt = b.eventAt ∧ a.eventId ≤ b.eventId

instance : DecidableRel ReferenceQuote.before := fun _ _ => inferInstanceAs (Decidable (_ ∨ _ ∧ _))

/-- What an execution makes of a quote: nothing, a reason to be without a fill, or shares at a price. -/
inductive Judgement where
  | passed
  | refused (reason : String)
  | marketable (size price : ℚ)
  deriving DecidableEq

section execution

variable (call : Call) (eligible : Instant)

def Call.deadline : Instant := eligible + call.order.maximumWaitSeconds * second

/-- Received at the cancellation or after it. -/
def Call.cancels (at_ : Instant) : Prop :=
  match call.cancelAt with
  | some (.aware cancelAt) => cancelAt ≤ at_
  | _ => False

instance (at_ : Instant) : Decidable (call.cancels at_) := by
  unfold Call.cancels
  split <;> infer_instance

def Call.outsideLimit (price : ℚ) : Prop :=
  ∃ limit ∈ call.order.limitPrice, call.order.side = .buy ∧ limit < price ∨ call.order.side = .sell ∧ price < limit

instance (price : ℚ) : Decidable (call.outsideLimit price) := by
  unfold Call.outsideLimit
  infer_instance

def Call.judge (quote : ReferenceQuote) : Judgement :=
  if quote.symbol ≠ call.order.symbol ∨ quote.eventAt < eligible then .passed
  else if call.deadline eligible < quote.receivedAt ∨ call.deadline eligible < quote.eventAt then .passed
  else if call.cancels quote.receivedAt then .passed
  else if ¬∃ session ∈ call.sessions, session.openedAt ≤ quote.eventAt ∧ quote.eventAt ≤ quote.receivedAt ∧
      quote.receivedAt < session.closedAt then .passed
  else if quote.priceBasis ≠ .raw then .refused "raw_price_basis_unavailable"
  else match quote.displayedShares call.order.side with
    | none => .refused "quote_size_units_unavailable"
    | some size =>
      let price := quote.price call.order.side
      if call.outsideLimit price then .refused "limit_not_marketable" else .marketable size price

/-- Where an execution stands. -/
structure Filling where
  remaining : ℚ
  fills : List ReferenceFill := []
  reason : String := "missing_or_stale_quote"

def Call.key (quote : ReferenceQuote) : String × String × Side :=
  (call.order.accountId, quote.eventId, call.order.side)

/-- The shares of a quote that the order gets. -/
def Call.share (used : Depletion) (f : Filling) (quote : ReferenceQuote) (size : ℚ) : ℚ :=
  min f.remaining (max 0 (size - used.getD (call.key quote) 0))

/-- Fills from the quotes in turn, until nothing remains. -/
def Call.fillFrom (used : Depletion) (f : Filling) : List ReferenceQuote → Filling × Depletion
  | [] => (f, used)
  | quote :: rest =>
    match call.judge eligible quote with
    | .passed => Call.fillFrom used f rest
    | .refused reason => Call.fillFrom used { f with reason } rest
    | .marketable size price =>
      let quantity := call.share used f quote size
      if quantity = 0 then Call.fillFrom used f rest
      else
        let fills := f.fills ++ [⟨quote.eventId, quote.receivedAt, quantity, price⟩]
        let used := used.set (call.key quote) (used.getD (call.key quote) 0 + quantity)
        let remaining := f.remaining - quantity
        if remaining = 0 then ({ f with fills, remaining }, used)
        else Call.fillFrom used { f with fills, remaining } rest

/-- Cancelled by the deadline with something left. -/
def Call.cancelled (remaining : ℚ) : Prop :=
  match call.cancelAt with
  | some (.aware cancelAt) => cancelAt ≤ call.deadline eligible ∧ 0 < remaining
  | _ => False

instance (remaining : ℚ) : Decidable (call.cancelled eligible remaining) := by
  unfold Call.cancelled
  split <;> infer_instance

def Call.report (f : Filling) : ReferenceExecution where
  status := if f.remaining = 0 then .filled else if call.cancelled eligible f.remaining then .cancelled
    else if f.fills ≠ [] then .partly else .unavailable
  eligibleAt := some eligible
  fills := f.fills
  remainingQuantity := f.remaining
  reason := if f.fills = [] then some f.reason else none

end execution

/-- The execution of a call that has no naive stamp. -/
def Call.execute (call : Call) : Procedure Depletion Fault ReferenceExecution :=
  match firstEligibleArrival call.order.arrivalAt call.sessions with
  | none => return {
      status := .unavailable
      eligibleAt := none
      remainingQuantity := call.order.quantity
      reason := some "next_session_not_supplied" }
  | some eligible => do
    let seen ← .lift (call.quotes.foldlM identify .empty)
    let quotes := seen.values.insertionSort ReferenceQuote.before
    let f ← fun used =>
      let (f, used) := call.fillFrom eligible used { remaining := call.order.quantity } quotes
      (.ok f, used)
    return call.report eligible f

/-- One execution over the depletion that the executions share. -/
def referenceExecute (call : Call) : Procedure Depletion Fault ReferenceExecution :=
  match call.cancelAt with
  | some (.naive _) => .raise ⟨"timezone-aware timestamp required"⟩
  | _ => call.execute

/-! ## One execution -/

/-- What it takes for a quote to be filled against. -/
structure Call.Marketable (call : Call) (eligible : Instant) (quote : ReferenceQuote) (size price : ℚ) : Prop where
  symbol : quote.symbol = call.order.symbol
  arrived : eligible ≤ quote.eventAt
  intime : quote.receivedAt ≤ call.deadline eligible
  uncancelled : ¬call.cancels quote.receivedAt
  session : ∃ session ∈ call.sessions, session.openedAt ≤ quote.eventAt ∧ quote.eventAt ≤ quote.receivedAt ∧
    quote.receivedAt < session.closedAt
  raw : quote.priceBasis = .raw
  shown : quote.displayedShares call.order.side = some size
  priced : price = quote.price call.order.side
  within : ¬call.outsideLimit price

/-- A fill is against a quote as it was displayed. -/
structure Call.Fills (call : Call) (eligible : Instant) (quote : ReferenceQuote) (fill : ReferenceFill) : Prop where
  marketable : ∃ size, call.Marketable eligible quote size fill.price
  name : fill.quoteId = quote.eventId
  received : fill.timestamp = quote.receivedAt
  positive : 0 < fill.quantity

/-- The shares that fills of the call take of a key. -/
def Call.taken (call : Call) (key : String × String × Side) (fills : List ReferenceFill) : ℚ :=
  ((fills.filter fun fill => (call.order.accountId, fill.quoteId, call.order.side) = key).map
    ReferenceFill.quantity).sum

/-- What filling from some of the quotes may do, with the fills it adds. -/
structure Call.Filled (call : Call) (eligible : Instant) (quotes : List ReferenceQuote) (used : Depletion)
    (f : Filling) (used' : Depletion) (f' : Filling) (new : List ReferenceFill) : Prop where
  fills : f'.fills = f.fills ++ new
  conserved : (new.map ReferenceFill.quantity).sum + f'.remaining = f.remaining
  justified : ∀ fill ∈ new, ∃ quote ∈ quotes, call.Fills eligible quote fill
  depleted : ∀ key, used'.getD key 0 = used.getD key 0 + call.taken key new
  capacity : ∀ key, used'.getD key 0 = used.getD key 0 ∨
    ∃ quote ∈ quotes, call.key quote = key ∧ ∃ size ∈ quote.displayedShares call.order.side, used'.getD key 0 ≤ size

section fills

variable {call : Call} {eligible : Instant} {quotes more : List ReferenceQuote} {quote : ReferenceQuote}
  {used used' used'' : Depletion} {f f' f'' : Filling} {new new' : List ReferenceFill} {size price : ℚ}

theorem judge_marketable (judged : call.judge eligible quote = .marketable size price) :
    call.Marketable eligible quote size price := by
  unfold Call.judge at judged
  split at judged
  · cases judged
  next own =>
    split at judged
    · cases judged
    next intime =>
      split at judged
      · cases judged
      next uncancelled =>
        split at judged
        · cases judged
        next session =>
          split at judged
          · cases judged
          next raw =>
            split at judged
            · cases judged
            next size shown =>
              dsimp only at judged
              split at judged
              · cases judged
              next within =>
                obtain ⟨rfl, rfl⟩ := Judgement.marketable.inj judged
                obtain ⟨symbol, arrived⟩ := not_or.mp own
                exact ⟨not_not.mp symbol, Int.not_lt.mp arrived, Int.not_lt.mp (not_or.mp intime).1, uncancelled,
                  not_not.mp session, not_not.mp raw, shown, rfl, within⟩

theorem Call.Filled.refl (same : f'.fills = f.fills) (left : f'.remaining = f.remaining) :
    call.Filled eligible quotes used f used f' [] where
  fills := by rw [same, List.append_nil]
  conserved := by rw [left]; exact zero_add _
  justified _ member := nomatch member
  depleted _ := (add_zero _).symm
  capacity _ := .inl rfl

theorem taken_append (call : Call) (key : String × String × Side) (new new' : List ReferenceFill) :
    call.taken key (new ++ new') = call.taken key new + call.taken key new' := by
  unfold Call.taken
  rw [List.filter_append, List.map_append, List.sum_append]

theorem taken_single (call : Call) (key : String × String × Side) (fill : ReferenceFill) :
    call.taken key [fill] =
      if (call.order.accountId, fill.quoteId, call.order.side) = key then fill.quantity else 0 := by
  unfold Call.taken
  by_cases same : (call.order.accountId, fill.quoteId, call.order.side) = key
  · simp [same]
  · simp [same]

theorem Call.Filled.trans (first : call.Filled eligible quotes used f used' f' new)
    (second : call.Filled eligible quotes used' f' used'' f'' new') :
    call.Filled eligible quotes used f used'' f'' (new ++ new') where
  fills := by rw [second.fills, first.fills, List.append_assoc]
  conserved := by rw [List.map_append, List.sum_append, add_assoc, second.conserved, first.conserved]
  justified fill member := (List.mem_append.mp member).elim (first.justified fill) (second.justified fill)
  depleted key := by rw [second.depleted, first.depleted, taken_append, add_assoc]
  capacity key := by
    rcases second.capacity key with same | touched
    · rw [same]
      exact first.capacity key
    · exact .inr touched

theorem Call.Filled.mono (filled : call.Filled eligible quotes used f used' f' new) (within : quotes ⊆ more) :
    call.Filled eligible more used f used' f' new where
  fills := filled.fills
  conserved := filled.conserved
  justified fill member :=
    let ⟨quote, among, fills⟩ := filled.justified fill member
    ⟨quote, within among, fills⟩
  depleted := filled.depleted
  capacity key := (filled.capacity key).imp_right fun ⟨quote, among, rest⟩ => ⟨quote, within among, rest⟩

/-- The share of a quote is within what is left of it and of the order. -/
theorem share_bounds (remaining : 0 ≤ f.remaining) (some_ : call.share used f quote size ≠ 0) :
    0 < call.share used f quote size ∧ call.share used f quote size ≤ f.remaining ∧
      used.getD (call.key quote) 0 + call.share used f quote size ≤ size := by
  have nonneg : 0 ≤ call.share used f quote size := le_min remaining (le_max_left _ _)
  have positive : 0 < call.share used f quote size := lt_of_le_of_ne nonneg some_.symm
  refine ⟨positive, min_le_left _ _, ?_⟩
  have left : call.share used f quote size ≤ max 0 (size - used.getD (call.key quote) 0) := min_le_right _ _
  rcases le_max_iff.mp left with none_ | some_
  · exact absurd none_ (not_le.mpr positive)
  · exact add_comm (call.share used f quote size) _ ▸ le_sub_iff_add_le.mp some_

/-- One fill against a marketable quote. -/
theorem Call.Marketable.filled (marketable : call.Marketable eligible quote size price) (remaining : 0 ≤ f.remaining)
    (some_ : call.share used f quote size ≠ 0) :
    call.Filled eligible [quote] used f
      (used.set (call.key quote) (used.getD (call.key quote) 0 + call.share used f quote size))
      { f with
        fills := f.fills ++ [⟨quote.eventId, quote.receivedAt, call.share used f quote size, price⟩]
        remaining := f.remaining - call.share used f quote size }
      [⟨quote.eventId, quote.receivedAt, call.share used f quote size, price⟩] := by
  obtain ⟨positive, -, within⟩ := share_bounds remaining some_
  refine ⟨rfl, ?_, fun fill member => ?_, fun key => ?_, fun key => ?_⟩
  · rw [List.map_singleton, List.sum_singleton]
    exact add_sub_cancel _ _
  · obtain rfl := List.mem_singleton.mp member
    exact ⟨quote, List.mem_cons_self, ⟨size, marketable⟩, rfl, rfl, positive⟩
  · rw [Dict.getD_set, taken_single]
    change _ = _ + if call.key quote = key then _ else 0
    by_cases same : call.key quote = key
    · rw [if_pos same, if_pos same, same]
    · rw [if_neg same, if_neg same, add_zero]
  · rw [Dict.getD_set]
    by_cases same : call.key quote = key
    · rw [if_pos same]
      exact .inr ⟨quote, List.mem_cons_self, same, size, marketable.shown, within⟩
    · exact .inl (if_neg same)

theorem fillFrom_filled (call : Call) (eligible : Instant) (used : Depletion) (f : Filling) (remaining : 0 ≤ f.remaining)
    (quotes : List ReferenceQuote) :
    ∃ new, call.Filled eligible quotes used f (call.fillFrom eligible used f quotes).2
      (call.fillFrom eligible used f quotes).1 new := by
  induction quotes generalizing used f with
  | nil => exact ⟨[], .refl rfl rfl⟩
  | cons quote rest ih =>
    have passed {f' : Filling} (same : f'.fills = f.fills) (left : f'.remaining = f.remaining) :
        ∃ new, call.Filled eligible (quote :: rest) used f (call.fillFrom eligible used f' rest).2
          (call.fillFrom eligible used f' rest).1 new := by
      obtain ⟨new, filled⟩ := ih used f' (left ▸ remaining)
      exact ⟨new, (Call.Filled.refl same left).trans (filled.mono (List.subset_cons_self quote rest))⟩
    unfold Call.fillFrom
    cases judged : call.judge eligible quote with
    | passed => exact passed rfl rfl
    | refused reason => exact passed rfl rfl
    | marketable size price =>
      dsimp only
      by_cases nothing : call.share used f quote size = 0
      · rw [if_pos nothing]
        exact passed rfl rfl
      · rw [if_neg nothing]
        have one := ((judge_marketable judged).filled remaining nothing).mono
          (List.cons_subset_cons quote (List.nil_subset rest))
        by_cases done : f.remaining - call.share used f quote size = 0
        · rw [if_pos done]
          exact ⟨_, one⟩
        · rw [if_neg done]
          obtain ⟨new, filled⟩ := ih _ { f with
            fills := f.fills ++ [⟨quote.eventId, quote.receivedAt, call.share used f quote size, price⟩]
            remaining := f.remaining - call.share used f quote size }
            (sub_nonneg.mpr (share_bounds remaining nothing).2.1)
          exact ⟨_, one.trans (filled.mono (List.subset_cons_self quote rest))⟩

end fills

theorem identify_spec {quotes : List ReferenceQuote} {seen result : Dict String ReferenceQuote}
    (checked : quotes.foldlM identify seen = .ok result) :
    (∀ id quote, seen.get? id = some quote → result.get? id = some quote) ∧
    (∀ quote ∈ quotes, result.get? quote.eventId = some quote) ∧
    ∀ id quote, result.get? id = some quote → seen.get? id = some quote ∨ quote ∈ quotes := by
  induction quotes generalizing seen with
  | nil =>
    obtain rfl := Except.ok.inj checked
    exact ⟨fun _ _ found => found, fun _ member => absurd member List.not_mem_nil, fun _ _ found => .inl found⟩
  | cons first rest ih =>
    rw [List.foldlM_cons] at checked
    obtain ⟨mid, named, checked⟩ := bind_ok_iff.mp checked
    unfold identify at named
    split at named
    · cases named
    next agrees =>
      obtain rfl := Except.ok.inj named
      obtain ⟨kept, all, from_⟩ := ih checked
      refine ⟨fun id quote found => kept id quote ?_, fun quote member => ?_, fun id quote found => ?_⟩
      · rw [Dict.get?_set]
        split
        next same =>
          -- The name was seen before, then with the same quote.
          by_contra other
          refine agrees ⟨quote, same ▸ found, fun equal => other (congrArg some equal)⟩
        next => exact found
      · rcases List.mem_cons.mp member with rfl | later
        · exact kept _ _ (Dict.get?_set_same _ _ _)
        · exact all quote later
      · rcases from_ id quote found with known | later
        · rw [Dict.get?_set] at known
          split at known
          · exact .inr (List.mem_cons.mpr (.inl (Option.some.inj known).symm))
          · exact .inl known
        · exact .inr (List.mem_cons_of_mem first later)

/-- How an execution ends: it raises and leaves the depletion, no session is open for it, or it fills from its quotes,
no two of which share a name. -/
inductive Call.Executed (call : Call) (used : Depletion) : Except Fault ReferenceExecution × Depletion → Prop
  | raised (fault : Fault) : Executed call used (.error fault, used)
  | closed (none_ : firstEligibleArrival call.order.arrivalAt call.sessions = none) :
      Executed call used (.ok {
        status := .unavailable
        eligibleAt := none
        remainingQuantity := call.order.quantity
        reason := some "next_session_not_supplied" }, used)
  | ran (eligible : Instant) (found : firstEligibleArrival call.order.arrivalAt call.sessions = some eligible)
      (quotes : List ReferenceQuote) (among : quotes ⊆ call.quotes)
      (distinct : ∀ a ∈ call.quotes, ∀ b ∈ call.quotes, a.eventId = b.eventId → a = b) :
      Executed call used
        (.ok (call.report eligible (call.fillFrom eligible used { remaining := call.order.quantity } quotes).1),
          (call.fillFrom eligible used { remaining := call.order.quantity } quotes).2)

theorem execute_executed (call : Call) (used : Depletion) : call.Executed used (call.execute used) := by
  unfold Call.execute
  cases found : firstEligibleArrival call.order.arrivalAt call.sessions with
  | none => exact .closed found
  | some eligible =>
    cases checked : call.quotes.foldlM identify .empty with
    | error fault => exact .raised fault
    | ok seen =>
      obtain ⟨-, all, from_⟩ := identify_spec checked
      refine .ran eligible found _ (fun quote member => ?_) fun a a_ b b_ same => ?_
      · obtain ⟨id, known⟩ := Dict.mem_values.mp ((List.perm_insertionSort _ _).mem_iff.mp member)
        exact (from_ id quote known).resolve_left (by simp)
      · exact Option.some.inj ((all a a_).symm.trans (same ▸ all b b_))

theorem referenceExecute_executed (call : Call) (used : Depletion) :
    call.Executed used (referenceExecute call used) := by
  unfold referenceExecute
  cases call.cancelAt with
  | none => exact execute_executed call used
  | some stamp =>
    cases stamp with
    | aware at_ => exact execute_executed call used
    | naive local_ => exact .raised _

/-- An execution accounts for its order, and its fills are causal. -/
structure Call.Sound (call : Call) (execution : ReferenceExecution) : Prop where
  conserved : (execution.fills.map ReferenceFill.quantity).sum + execution.remainingQuantity = call.order.quantity
  eligible : execution.eligibleAt = firstEligibleArrival call.order.arrivalAt call.sessions
  causal : ∀ fill ∈ execution.fills, ∃ eligible ∈ execution.eligibleAt, call.order.arrivalAt ≤ eligible ∧
    ∃ quote ∈ call.quotes, call.Fills eligible quote fill

theorem arrival_le {arrivalAt eligible : Instant} {sessions : List ReferenceSession}
    (found : firstEligibleArrival arrivalAt sessions = some eligible) : arrivalAt ≤ eligible := by
  obtain ⟨session, -, rfl⟩ := Option.map_eq_some_iff.mp found
  exact le_max_left _ _

theorem Call.Executed.sound {call : Call} {used used' : Depletion} {execution : ReferenceExecution}
    (executed : call.Executed used (.ok execution, used')) : call.Sound execution := by
  cases executed with
  | closed none_ => exact ⟨zero_add _, none_.symm, fun _ member => nomatch member⟩
  | ran eligible found quotes among distinct =>
    obtain ⟨new, filled⟩ := fillFrom_filled call eligible used { remaining := call.order.quantity }
      call.order.quantityPositive.le quotes
    have fills : (call.fillFrom eligible used { remaining := call.order.quantity } quotes).1.fills = new := filled.fills
    refine ⟨?_, found.symm, fun fill member => ⟨eligible, rfl, arrival_le found, ?_⟩⟩
    · change ((call.fillFrom _ _ _ _).1.fills.map _).sum + _ = _
      rw [fills]
      exact filled.conserved
    · change fill ∈ (call.fillFrom _ _ _ _).1.fills at member
      rw [fills] at member
      obtain ⟨quote, there, fill⟩ := filled.justified fill member
      exact ⟨quote, among there, fill⟩

/-! ## Executions one after the other -/

def depletionAfter (used : Depletion) (calls : List Call) : Depletion :=
  calls.foldl (fun used call => (referenceExecute call used).2) used

def outcomes (used : Depletion) : List Call → List (Call × Except Fault ReferenceExecution)
  | [] => []
  | call :: rest => (call, (referenceExecute call used).1) :: outcomes (referenceExecute call used).2 rest

def takenBy (key : String × String × Side) (done : Call × Except Fault ReferenceExecution) : ℚ :=
  match done.2 with
  | .ok execution => done.1.taken key execution.fills
  | .error _ => 0

/-- The shares of a quote that the executions have filled, by account, quote and side. -/
def sharesFilled (key : String × String × Side) (done : List (Call × Except Fault ReferenceExecution)) : ℚ :=
  (done.map (takenBy key)).sum

section shared

variable {used : Depletion} {calls : List Call} {call : Call} {key : String × String × Side}

/-- What an execution does to the depletion of a key. -/
theorem Call.Executed.depletes {outcome : Except Fault ReferenceExecution × Depletion}
    (executed : call.Executed used outcome) :
    outcome.2.getD key 0 = used.getD key 0 + takenBy key (call, outcome.1) ∧
    (outcome.2.getD key 0 = used.getD key 0 ∨
      (∀ a ∈ call.quotes, ∀ b ∈ call.quotes, a.eventId = b.eventId → a = b) ∧
      ∃ quote ∈ call.quotes, call.key quote = key ∧
        ∃ size ∈ quote.displayedShares call.order.side, outcome.2.getD key 0 ≤ size) := by
  cases executed with
  | raised fault => exact ⟨(add_zero _).symm, .inl rfl⟩
  | closed none_ => exact ⟨(add_zero _).symm, .inl rfl⟩
  | ran eligible found quotes among distinct =>
    obtain ⟨new, filled⟩ := fillFrom_filled call eligible used { remaining := call.order.quantity }
      call.order.quantityPositive.le quotes
    have fills : (call.fillFrom eligible used { remaining := call.order.quantity } quotes).1.fills = new := filled.fills
    refine ⟨?_, (filled.capacity key).imp_right fun ⟨quote, there, named, size, shown, le⟩ =>
      ⟨distinct, quote, among there, named, size, shown, le⟩⟩
    change _ = _ + call.taken key (call.fillFrom _ _ _ _).1.fills
    rw [fills]
    exact filled.depleted key

theorem depletionAfter_eq (used : Depletion) (calls : List Call) (key : String × String × Side) :
    (depletionAfter used calls).getD key 0 = used.getD key 0 + sharesFilled key (outcomes used calls) := by
  induction calls generalizing used with
  | nil => exact (add_zero _).symm
  | cons call rest ih =>
    change (depletionAfter (referenceExecute call used).2 rest).getD key 0 = _ + ((takenBy key _) + sharesFilled key _)
    rw [ih, (referenceExecute_executed call used).depletes.1, add_assoc]

/-- A key is used by no more than a quote of one of the executions displays. -/
theorem depletionAfter_within (fresh : used.getD key 0 = 0) (calls : List Call) :
    (depletionAfter used calls).getD key 0 = 0 ∨ ∃ call ∈ calls,
      (∀ a ∈ call.quotes, ∀ b ∈ call.quotes, a.eventId = b.eventId → a = b) ∧
      ∃ quote ∈ call.quotes, call.key quote = key ∧
        ∃ size ∈ quote.displayedShares call.order.side, (depletionAfter used calls).getD key 0 ≤ size := by
  induction calls using List.reverseRecOn with
  | nil => exact .inl fresh
  | append_singleton before call ih =>
    have last : depletionAfter used (before ++ [call]) = (referenceExecute call (depletionAfter used before)).2 := by
      unfold depletionAfter
      rw [List.foldl_append]
      rfl
    rw [last]
    rcases (referenceExecute_executed call (depletionAfter used before)).depletes.2 with same | touched
    · rw [same]
      exact ih.imp_right fun ⟨earlier, member, rest⟩ => ⟨earlier, List.mem_append_left _ member, rest⟩
    · exact .inr ⟨call, List.mem_append_right _ List.mem_cons_self, touched⟩

theorem mem_outcomes {done : Call × Except Fault ReferenceExecution} (member : done ∈ outcomes used calls) :
    done.1 ∈ calls ∧ ∃ before after, done.1.Executed before (done.2, after) := by
  induction calls generalizing used with
  | nil => cases member
  | cons call rest ih =>
    rcases List.mem_cons.mp member with rfl | later
    · exact ⟨List.mem_cons_self, used, _, referenceExecute_executed call used⟩
    · obtain ⟨among, executed⟩ := ih later
      exact ⟨List.mem_cons_of_mem call among, executed⟩

end shared

theorem displayedShares_nonneg {quote : ReferenceQuote} {side : Side} {size : ℚ}
    (shown : quote.displayedShares side = some size) : 0 ≤ size := by
  have nonneg : 0 ≤ if side = .buy then quote.askSize else quote.bidSize := by
    split
    · exact quote.askSizeNonneg
    · exact quote.bidSizeNonneg
  unfold ReferenceQuote.displayedShares at shown
  split at shown
  · cases shown
  · dsimp only at shown
    split at shown
    · exact Option.some.inj shown ▸ nonneg
    · obtain ⟨lot, some_, rfl⟩ := Option.map_eq_some_iff.mp shown
      exact Rounding.significant_nonneg (mul_nonneg nonneg (quote.lotPositive lot some_).le)

/-- A name in both means one quote. -/
def Call.Agrees (c d : Call) : Prop := ∀ a ∈ c.quotes, ∀ b ∈ d.quotes, a.eventId = b.eventId → a = b

theorem Call.Agrees.symm {c d : Call} (agrees : c.Agrees d) : d.Agrees c :=
  fun a a_ b b_ same => (agrees b b_ a a_ same.symm).symm

theorem agree_of_pairwise {calls : List Call} (one : calls.Pairwise Call.Agrees) {c d : Call} (c_ : c ∈ calls)
    (d_ : d ∈ calls) (apart : c ≠ d) : c.Agrees d := by
  have across : calls.Pairwise fun c d => c ≠ d → c.Agrees d :=
    one.imp fun {c d} agrees (_ : c ≠ d) => agrees
  have back : calls.Pairwise (flip fun c d => c ≠ d → c.Agrees d) :=
    one.imp fun {c d} agrees (_ : d ≠ c) => agrees.symm
  exact List.Pairwise.forall_of_forall_of_flip (fun c _ apart => absurd rfl apart) across back c_ d_ apart

/-- Whatever orders are executed over one depletion, where a quote's name means one quote: no quote is filled beyond the
shares it displays, fills and remainder make the order, every fill is causal, and an execution that raises leaves the
depletion as it was. -/
theorem reference_executions (calls : List Call) (one : calls.Pairwise Call.Agrees) :
    (∀ call ∈ calls, ∀ quote ∈ call.quotes, ∀ (account : String) (side : Side),
      sharesFilled (account, quote.eventId, side) (outcomes .empty calls) ≤ (quote.displayedShares side).getD 0) ∧
    (∀ done ∈ outcomes .empty calls, ∀ execution, done.2 = .ok execution → done.1.Sound execution) ∧
    ∀ (call : Call) (used : Depletion) (fault : Fault),
      (referenceExecute call used).1 = .error fault → (referenceExecute call used).2 = used := by
  refine ⟨fun call call_ quote quote_ account side => ?_, fun done member execution ended => ?_,
    fun call used fault raised => ?_⟩
  · have total : (depletionAfter .empty calls).getD (account, quote.eventId, side) 0 = 0 +
        sharesFilled (account, quote.eventId, side) (outcomes .empty calls) := depletionAfter_eq _ _ _
    rw [zero_add] at total
    rw [← total]
    have fresh : (Dict.empty : Depletion).getD (account, quote.eventId, side) 0 = 0 := rfl
    rcases depletionAfter_within fresh calls with unused | touched
    · rw [unused]
      cases shown : quote.displayedShares side with
      | none => exact le_rfl
      | some size => exact displayedShares_nonneg shown
    · obtain ⟨other, other_, distinct, shown, shown_, named, size, displayed, le⟩ := touched
      obtain ⟨name, sided⟩ : shown.eventId = quote.eventId ∧ other.order.side = side := by
        obtain ⟨-, rest⟩ := Prod.mk.inj named
        exact Prod.mk.inj rest
      -- The quote of that name, in this call or in another.
      have same : shown = quote := by
        by_cases here : other = call
        · subst here
          exact distinct shown shown_ quote quote_ name
        · exact agree_of_pairwise one other_ call_ here shown shown_ quote quote_ name
      subst same sided
      rw [Option.mem_def.mp displayed]
      exact le
  · obtain ⟨-, before, after, executed⟩ := mem_outcomes member
    rw [ended] at executed
    exact executed.sound
  · have executed := referenceExecute_executed call used
    revert executed raised
    generalize referenceExecute call used = outcome
    intro raised executed
    cases executed with
    | raised fault => rfl
    | closed none_ => cases raised
    | ran eligible found quotes among distinct => cases raised

theorem shareBid_pos : (0 : ℚ) < 9999 / 100 := by norm_num

theorem shareAsk_pos : (0 : ℚ) < 10001 / 100 := by norm_num

theorem shareBid_le : (9999 / 100 : ℚ) ≤ 10001 / 100 := by norm_num

theorem oneShare_nonneg : (0 : ℚ) ≤ 1 := zero_le_one

theorem none_positive : ∀ a ∈ (none : Option ℚ), 0 < a := by simp

theorem shareClocks : (10 : Instant) ≤ 10 ∧ (10 : Instant) ≤ 10 := ⟨le_rfl, le_rfl⟩

theorem threeQuarters_pos : (0 : ℚ) < 3 / 4 := by norm_num

theorem threeQuarters_decimals : ((3 / 4 : ℚ) * 10 ^ 9).den = 1 := by norm_num

theorem fractionable_whole : true = false → (3 / 4 : ℚ).den = 1 := by simp

theorem buyCall_causal : (0 : Instant) ≤ 0 := le_rfl

theorem session_positive : (0 : Instant) < 100 := by decide

def oneShareQuote : ReferenceQuote where
  eventId := "quote"
  symbol := "SYNTH"
  eventAt := 10
  providerAt := 10
  receivedAt := 10
  bid := 9999 / 100
  ask := 10001 / 100
  bidSize := 1
  askSize := 1
  priceBasis := .raw
  sizeUnits := .shares
  sizeProvenance := some "synthetic schema"
  source := "synthetic"
  evidenceKind := .synthetic
  bidPositive := shareBid_pos
  askPositive := shareAsk_pos
  bidSizeNonneg := oneShare_nonneg
  askSizeNonneg := oneShare_nonneg
  lotPositive := none_positive
  uncrossed := shareBid_le
  clocks := shareClocks

def buyCall (orderId : String) : Call where
  order := {
    accountId := "account"
    orderId := orderId
    symbol := "SYNTH"
    side := .buy
    quantity := 3 / 4
    decisionAt := 0
    arrivalAt := 0
    fractionable := true
    quantityPositive := threeQuarters_pos
    limitPositive := none_positive
    causal := buyCall_causal
    nineDecimals := threeQuarters_decimals
    whole := fractionable_whole }
  quotes := [oneShareQuote]
  sessions := [⟨0, 100, session_positive⟩]

/-- Two orders share the one share displayed. -/
theorem reference_executions_shared :
    sharesFilled ("account", "quote", .buy) (outcomes .empty [buyCall "first", buyCall "second"]) ≤
      (oneShareQuote.displayedShares .buy).getD 0 :=
  (reference_executions [buyCall "first", buyCall "second"] (List.pairwise_pair.mpr fun _ first _ second _ =>
    (List.mem_singleton.mp first).trans (List.mem_singleton.mp second).symm)).1
    (buyCall "first") List.mem_cons_self oneShareQuote List.mem_cons_self "account" .buy

example : sharesFilled ("account", "quote", .buy) (outcomes .empty [buyCall "first", buyCall "second"]) = 1 := by
  decide +kernel

end TradeAgent.Reference
