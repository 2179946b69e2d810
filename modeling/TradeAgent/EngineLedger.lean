import TradeAgent.RiskGateway

/-! What the order engines write down: intents, the ids their orders carry and the
events of the append-only ledger. -/
namespace TradeAgent

/-- A decimal as it is held: its value and its printed form. -/
structure Weight where
  value : ℚ
  text : String
  plain : '|' ∉ text.toList

def Weight.zero : Weight := ⟨0, "0", by decide⟩

structure TradeIntent where
  strategyId : String
  symbol : String
  targetWeight : Weight
  generatedAt : Instant
  rationale : String
  weightRange : 0 ≤ targetWeight.value ∧ targetWeight.value ≤ 1

structure PortfolioIntent where
  strategyId : String
  timestamp : Instant
  targetWeights : Dict String Weight
  rationale : String
  weightRange : ∀ weight ∈ targetWeights.values, 0 ≤ weight.value ∧ weight.value ≤ 1
  weightSum : (targetWeights.values.map Weight.value).sum ≤ 1

/-- Ten and twenty-four hex digits of a SHA-256, and a printed UTC timestamp: distinct
instants print differently, in a fixed alphabet. -/
structure Hashing where
  token : String → String
  digest : String → String
  stamp : Instant → String
  tokenLength : ∀ text, (token text).toList.length = 10
  stampInjective : Function.Injective stamp
  stampPlain : ∀ at_, '|' ∉ (stamp at_).toList

namespace Hashing

variable (h : Hashing)

/-- The decision text that is hashed. -/
def text (strategyId symbol : String) (at_ : Instant) (weight : Weight) : String :=
  strategyId ++ "|" ++ symbol ++ "|" ++ h.stamp at_ ++ "|" ++ weight.text

def decisionId (strategyId symbol : String) (at_ : Instant) (weight : Weight) : String :=
  h.digest (h.text strategyId symbol at_ weight)

def clientOrderId (strategyId symbol : String) (at_ : Instant) (weight : Weight) : String :=
  "ta-" ++ h.token strategyId ++ ":" ++ h.decisionId strategyId symbol at_ weight ++ ":1"

/-- What stands after the last separator is determined by the joined text. -/
theorem split_last {front front' back back' : List Char} (plain : '|' ∉ back) (plain' : '|' ∉ back')
    (same : front ++ '|' :: back = front' ++ '|' :: back') : front = front' ∧ back = back' := by
  rcases List.append_eq_append_iff.mp same with ⟨between, one, two⟩ | ⟨between, one, two⟩
  · cases between with
    | nil => simp_all
    | cons c rest =>
      simp only [List.cons_append, List.cons.injEq] at two
      exact absurd (two.2 ▸ by simp) plain
  · cases between with
    | nil => simp_all
    | cons c rest =>
      simp only [List.cons_append, List.cons.injEq] at two
      exact absurd (two.2 ▸ by simp) plain'

/-- The text of a decision determines its time, and its symbol when the strategy is known. -/
theorem text_inj {strategyId strategyId' symbol symbol' : String} {at_ at_' : Instant}
    {weight weight' : Weight}
    (same : h.text strategyId symbol at_ weight = h.text strategyId' symbol' at_' weight') :
    at_ = at_' ∧ (strategyId = strategyId' → symbol = symbol') := by
  have lists := congrArg String.toList same
  simp only [text, String.toList_append, List.append_assoc] at lists
  have bar : ("|" : String).toList = ['|'] := rfl
  simp only [bar, List.singleton_append] at lists
  obtain ⟨fronts, _⟩ := @split_last
    (strategyId.toList ++ '|' :: (symbol.toList ++ '|' :: (h.stamp at_).toList))
    (strategyId'.toList ++ '|' :: (symbol'.toList ++ '|' :: (h.stamp at_').toList))
    _ _ weight.plain weight'.plain (by simpa using lists)
  have inner := @split_last (strategyId.toList ++ '|' :: symbol.toList)
    (strategyId'.toList ++ '|' :: symbol'.toList) _ _ (h.stampPlain at_) (h.stampPlain at_')
    (by simpa using fronts)
  refine ⟨h.stampInjective (String.toList_injective inner.2), ?_⟩
  rintro rfl
  have symbols := List.append_cancel_left inner.1
  exact String.toList_injective (List.cons.inj symbols).2

/-- Equal ids come from equal digests. -/
theorem decisionId_of_clientOrderId {strategyId strategyId' symbol symbol' : String}
    {at_ at_' : Instant} {weight weight' : Weight}
    (same : h.clientOrderId strategyId symbol at_ weight =
      h.clientOrderId strategyId' symbol' at_' weight') :
    h.decisionId strategyId symbol at_ weight = h.decisionId strategyId' symbol' at_' weight' := by
  have lists := congrArg String.toList same
  simp only [clientOrderId, String.toList_append, List.append_assoc] at lists
  have rest := List.append_cancel_left lists
  have tails := (List.append_inj rest (by rw [h.tokenLength, h.tokenLength])).2
  have ends := List.append_cancel_left tails
  exact String.toList_injective (List.append_cancel_right ends)

end Hashing

section Decimal

theorem digit_of_mem_repr {n : ℕ} {c : Char} (present : c ∈ (Nat.repr n).toList) : c.isDigit := by
  rw [Nat.toList_repr] at present
  exact Nat.isDigit_of_mem_toDigits (by decide) (by decide) present

theorem natRepr_injective {m n : ℕ} (same : (Nat.repr m).toList = (Nat.repr n).toList) : m = n := by
  rw [Nat.toList_repr, Nat.toList_repr] at same
  have back := congrArg (fun ds => Nat.ofDigitChars 10 ds 0) same
  simpa using back

theorem minus_mem_negSucc (n : ℕ) : '-' ∈ (Int.repr (.negSucc n)).toList := by
  rw [Int.repr, String.toList_append]
  exact List.mem_append_left _ (by decide)

theorem intRepr_injective : Function.Injective Int.repr := by
  have apart {m n : ℕ} (same : Int.repr (.ofNat m) = Int.repr (.negSucc n)) : False := by
    have minus := minus_mem_negSucc n
    rw [← same] at minus
    simpa using digit_of_mem_repr minus
  intro a b same
  cases a with
  | ofNat m =>
    cases b with
    | ofNat n => exact congrArg Int.ofNat (natRepr_injective (congrArg String.toList same))
    | negSucc n => exact (apart same).elim
  | negSucc m =>
    cases b with
    | ofNat n => exact (apart same.symm).elim
    | negSucc n =>
      have lists := congrArg String.toList same
      simp only [Int.repr, String.toList_append] at lists
      exact congrArg Int.negSucc (Nat.succ.inj (natRepr_injective (List.append_cancel_left lists)))

end Decimal

/-- A hashing to compute with: the decision text itself and the microseconds in decimal. -/
def plainHashing : Hashing where
  token _ := "0123456789"
  digest text := text
  stamp at_ := Int.repr at_
  tokenLength _ := rfl
  stampInjective := intRepr_injective
  stampPlain at_ present := by
    cases at_ with
    | ofNat n => simpa using digit_of_mem_repr present
    | negSucc n =>
      rw [Int.repr, String.toList_append, List.mem_append] at present
      rcases present with minus | rest
      · simp at minus
      · simpa using digit_of_mem_repr rest

/-- The market order that moves a position by `difference`. -/
def OrderRequest.toward (clientOrderId symbol : String) (difference : ℚ) (moves : difference ≠ 0)
    (submittedAt : Instant) : OrderRequest where
  clientOrderId := clientOrderId
  symbol := symbol
  side := if 0 < difference then .buy else .sell
  quantity := |difference|
  submittedAt := submittedAt
  quantityPositive := abs_pos.mpr moves

inductive Payload where
  | tradeIntent (intent : TradeIntent)
  | portfolioIntent (intent : PortfolioIntent)
  | riskDecision (decision : Risk.RiskDecision)
  | orderSubmitted (order : OrderRequest)
  | orderFilled (fill : Fill)
  | brokerCheckpoint (state : Paper.PaperBrokerState)
  | engineProgress (symbol : String) (timestamp : Instant) (fingerprint : String)
  | portfolioProgress (timestamp : Instant) (strategyId fingerprint : String)

structure LedgerEvent where
  payload : Payload
  occurredAt : Instant

/-- The newest event of a kind. -/
def latest (kind : LedgerEvent → Option α) (ledger : List LedgerEvent) : Option α :=
  (ledger.filterMap kind).getLast?

theorem latest_append (kind : LedgerEvent → Option α) (ledger later : List LedgerEvent) :
    latest kind (ledger ++ later) = (latest kind later).or (latest kind ledger) := by
  simp only [latest, List.filterMap_append, List.getLast?_append]

def LedgerEvent.checkpoint (e : LedgerEvent) : Option (Paper.PaperBrokerState × Instant) :=
  match e.payload with
  | .brokerCheckpoint state => some (state, e.occurredAt)
  | _ => none

def LedgerEvent.progress (e : LedgerEvent) : Option (Instant × String) :=
  match e.payload with
  | .engineProgress _ timestamp fingerprint => some (timestamp, fingerprint)
  | _ => none

def LedgerEvent.filled (e : LedgerEvent) : Option Fill :=
  match e.payload with
  | .orderFilled fill => some fill
  | _ => none

inductive EngineError where
  | broker (error : Paper.BrokerError)
  | noBars | noFrames | symbolsChanged | unknownSymbols (symbols : List String)
  | configurationDiffers
  deriving DecidableEq, Repr

def EngineError.text : EngineError → String
  | .broker error => error.text
  | .noBars => "at least one market bar is required"
  | .noFrames => "at least one universe frame is required"
  | .symbolsChanged => "portfolio frame symbols changed during the run"
  | .unknownSymbols symbols => "intent contains symbols outside the universe: " ++ toString symbols
  | .configurationDiffers => "existing paper run configuration differs; use a separate database"

/-- A broker call that raised ends the run. -/
def accept : Paper.PaperBroker × Except Paper.BrokerError α → Except EngineError (Paper.PaperBroker × α)
  | (broker, .ok value) => .ok (broker, value)
  | (_, .error error) => .error (.broker error)

theorem accept_ok {result : Paper.PaperBroker × Except Paper.BrokerError α} {broker : Paper.PaperBroker}
    {value : α} : accept result = .ok (broker, value) ↔ result = (broker, .ok value) := by
  obtain ⟨b, _ | v⟩ := result <;> simp [accept]

def exported (broker : Paper.PaperBroker) : Except EngineError Paper.PaperBrokerState :=
  match Paper.exportState broker with
  | .ok state => .ok state
  | .error error => .error (.broker error)

theorem exported_ok {broker : Paper.PaperBroker} {state : Paper.PaperBrokerState} :
    exported broker = .ok state ↔ Paper.exportState broker = .ok state := by
  unfold exported
  split <;> simp_all

end TradeAgent
