import Mathlib
import TradeAgent.Library.Machine
import TradeAgent.Library.Window
import TradeAgent.RiskGateway

/-! The hourly order rate over whole histories of the risk gateway: approved, rejected and risk-reducing orders in
any mix, with the kill switch moved in between. -/
namespace TradeAgent.Risk

/-- One evaluation, with what it is asked about. -/
structure Call where
  order : OrderRequest
  bar : MarketBar
  account : AccountSnapshot
  observedAt : Instant
  tradingEnabled : Bool

inductive Request where
  | evaluate (call : Call)
  | activateKillSwitch
  | resetKillSwitch

def RiskEngine.answer (r : RiskEngine) (call : Call) : RiskEngine × RiskDecision :=
  evaluate r call.order call.bar call.account call.observedAt call.tradingEnabled

def step (r : RiskEngine) : Request → RiskEngine
  | .evaluate call => (r.answer call).1
  | .activateKillSwitch => { r with killSwitchActive := true }
  | .resetKillSwitch => { r with killSwitchActive := false }

/-- When a request observes the market. -/
def Request.times : Request → List Instant
  | .evaluate call => [call.observedAt]
  | _ => []

/-- When a request is an evaluation that approves its order. -/
def Request.approved (r : RiskEngine) : Request → List Instant
  | .evaluate call => if (r.answer call).2.approved then [call.observedAt] else []
  | _ => []

def times (requests : List Request) : List Instant := requests.flatMap Request.times

/-- The times of all approvals of a history. -/
def approvals (r : RiskEngine) : List Request → List Instant
  | [] => []
  | request :: rest => request.approved r ++ approvals (step r request) rest

/-- What is an hour old or older at an observation. -/
def aged (observedAt at_ : Instant) : Bool := decide (at_ ≤ observedAt - hour)

theorem aged_ages : Window.Ages (· ≤ ·) aged where
  earlier cutoff a b le old := by
    simp only [aged, decide_eq_true_eq] at old ⊢
    exact le.trans old
  later cutoff cutoff' a le old := by
    simp only [aged, decide_eq_true_eq] at old ⊢
    exact old.trans (sub_le_sub_right le hour)

theorem aged_self (at_ : Instant) : aged at_ at_ = false := by
  have positive : (0 : Instant) < hour := by decide
  simpa [aged] using positive

section window

variable (r : RiskEngine)

theorem recent_trim (observedAt : Instant) : r.recent observedAt = Window.trim aged observedAt r.orderTimes := rfl

@[simp] theorem step_limits (request : Request) : (step r request).limits = r.limits := by
  cases request <;> rfl

theorem run_limits (requests : List Request) : (Machine.run step r requests).limits = r.limits := by
  induction requests generalizing r with
  | nil => rfl
  | cons request rest ih => exact (ih (step r request)).trans (step_limits r request)

theorem approvals_append (before after : List Request) :
    approvals r (before ++ after) = approvals r before ++ approvals (Machine.run step r before) after := by
  induction before generalizing r with
  | nil => rfl
  | cons request rest ih => simp only [List.cons_append, approvals, Machine.run_cons, ih, List.append_assoc]

theorem approved_times (request : Request) : (request.approved r).Sublist request.times := by
  cases request with
  | evaluate call =>
    change List.Sublist (if (r.answer call).2.approved = true then _ else _) _
    by_cases approved : (r.answer call).2.approved = true
    · rw [if_pos approved]
      exact List.Sublist.refl _
    · rw [if_neg approved]
      exact List.nil_sublist _
  | activateKillSwitch => exact List.Sublist.refl _
  | resetKillSwitch => exact List.Sublist.refl _

theorem approvals_times (requests : List Request) : (approvals r requests).Sublist (times requests) := by
  induction requests generalizing r with
  | nil => exact List.Sublist.refl _
  | cons request rest ih => exact (approved_times r request).append (ih _)

/-- An evaluation trims the window and appends its own approval. -/
theorem answer_window (call : Call) :
    (r.answer call).1.orderTimes = r.recent call.observedAt ++ (Request.evaluate call).approved r := by
  change (if (r.answer call).2.approved = true then _ else _) = _ ++ if _ then _ else _
  by_cases approved : (r.answer call).2.approved = true
  · rw [if_pos approved, if_pos approved]
  · rw [if_neg approved, if_neg approved]
    exact (List.append_nil _).symm

/-- An approved order that does not reduce risk found room in the window. -/
theorem answer_room {call : Call} (approved : (r.answer call).2.approved = true)
    (increasing : riskReducing call.order call.account = false) :
    (r.recent call.observedAt).length < r.limits.maxOrdersPerHour := by
  have unlimited := ((evaluate_approved r _ _ _ _ _).mp approved).2
  simpa [RiskEngine.rateLimited, increasing] using unlimited

end window

/-- The window, whenever it is looked at next, holds the approvals of the hour before. -/
def Counts (r : RiskEngine) (seen history : List Instant) : Prop :=
  ∀ now, (∀ at_ ∈ seen, at_ ≤ now) → r.recent now = Window.recent aged now history

/-- An engine that saw its requests in order counts its approvals. -/
theorem run_counts {r : RiskEngine} (fresh : r.orderTimes = []) (requests : List Request)
    (ordered : (times requests).Pairwise (· ≤ ·)) :
    Counts (Machine.run step r requests) (times requests) (approvals r requests) := by
  induction requests using List.reverseRecOn with
  | nil =>
    intro now _
    rw [recent_trim, Machine.run_nil, fresh]
    rfl
  | append_singleton before request ih =>
    have split : times (before ++ [request]) = times before ++ request.times := by simp [times]
    rw [split] at ordered
    obtain ⟨past, -, between⟩ := List.pairwise_append.mp ordered
    have counts := ih past
    have history := past.sublist (approvals_times r before)
    rw [split, approvals_append, Machine.run_append]
    intro now seen
    have settled : ∀ at_ ∈ times before, at_ ≤ now := fun at_ member => seen at_ (List.mem_append_left _ member)
    generalize Machine.run step r before = s at counts ⊢
    simp only [Machine.run_cons, Machine.run_nil, approvals, List.append_nil]
    cases request with
    | activateKillSwitch =>
      rw [show Request.approved s .activateKillSwitch = [] from rfl, List.append_nil]
      exact counts now settled
    | resetKillSwitch =>
      rw [show Request.approved s .resetKillSwitch = [] from rfl, List.append_nil]
      exact counts now settled
    | evaluate call =>
      have later : call.observedAt ≤ now := seen _ (List.mem_append_right _ (List.mem_singleton_self _))
      have window := counts call.observedAt fun at_ member => between at_ member _ (List.mem_singleton_self _)
      -- The approval of the call comes after all the history before it.
      have all : (approvals r before ++ (Request.evaluate call).approved s).Pairwise (· ≤ ·) :=
        ordered.sublist ((approvals_times r before).append (approved_times s _))
      have young : Window.recent aged call.observedAt ((Request.evaluate call).approved s) =
          (Request.evaluate call).approved s := by
        refine List.filter_eq_self.mpr fun at_ member => ?_
        rw [List.mem_singleton.mp ((approved_times s _).mem member), aged_self]
        rfl
      rw [show step s (.evaluate call) = (s.answer call).1 from rfl, recent_trim, answer_window, window]
      rw [← young, ← Window.recent_append, young, Window.trim_recent aged_ages later all]

/-- An order that is approved and does not reduce risk is, with the approvals of the hour before it, within the hourly
limit; and these approvals are the ones that the engine has in its window. -/
theorem hourly_rate (limits : RiskLimits) (before : List Request) (call : Call)
    (ordered : (times (before ++ [.evaluate call])).Pairwise (· ≤ ·))
    (approved : ((Machine.run step { limits } before).answer call).2.approved = true)
    (increasing : riskReducing call.order call.account = false) :
    let counted := (approvals { limits } (before ++ [.evaluate call])).filter fun at_ =>
      call.observedAt - hour < at_ ∧ at_ ≤ call.observedAt
    (Machine.run step { limits } (before ++ [.evaluate call])).orderTimes = counted ∧
    call.observedAt ∈ counted ∧ counted.length ≤ limits.maxOrdersPerHour := by
  intro counted
  have split : times (before ++ [.evaluate call]) = times before ++ [call.observedAt] := by simp [times, Request.times]
  have ordered' := ordered
  rw [split] at ordered'
  obtain ⟨past, -, between⟩ := List.pairwise_append.mp ordered'
  have window := run_counts (r := { limits }) rfl before past call.observedAt fun at_ member =>
    between at_ member _ (List.mem_singleton_self _)
  have room := answer_room _ approved increasing
  have own : (Request.evaluate call).approved (Machine.run step { limits } before) = [call.observedAt] := if_pos approved
  -- Nothing in the history is later than the call.
  have counts : counted = (Machine.run step { limits } before).recent call.observedAt ++ [call.observedAt] := by
    have all : counted = Window.recent aged call.observedAt (approvals { limits } (before ++ [.evaluate call])) := by
      refine List.filter_congr fun at_ member => ?_
      have seen : at_ ∈ times before ++ [call.observedAt] := split ▸ (approvals_times _ _).mem member
      have upper : at_ ≤ call.observedAt := by
        rcases List.mem_append.mp seen with earlier | self
        · exact between at_ earlier _ (List.mem_singleton_self _)
        · exact (List.mem_singleton.mp self).le
      simp only [upper, and_true, aged, ← not_le, decide_not]
    have young : Window.recent aged call.observedAt [call.observedAt] = [call.observedAt] :=
      List.filter_eq_self.mpr fun at_ member => by rw [List.mem_singleton.mp member, aged_self]; rfl
    rw [all, approvals_append, Window.recent_append, window]
    simp only [approvals, List.append_nil, own, young]
  refine ⟨?_, ?_, ?_⟩
  · rw [Machine.run_append, counts]
    change ((Machine.run step { limits } before).answer call).1.orderTimes = _
    rw [answer_window, own]
  · rw [counts]
    exact List.mem_append_right _ (List.mem_singleton_self _)
  · rw [counts, List.length_append, List.length_singleton]
    rw [run_limits] at room
    exact room

theorem smallPrice_pos : (0 : ℚ) < 1 := one_pos

theorem smallPrice_highest : max (1 : ℚ) 1 ≤ 1 := (max_self _).le

theorem smallPrice_lowest : (1 : ℚ) ≤ min 1 1 := (min_self _).ge

/-- A dollar of a hundred thousand, at a bar of the same moment. -/
def smallBuy : Call where
  order := ⟨"small", "SPY", .buy, 1, .market, 0, smallPrice_pos⟩
  bar := ⟨"SPY", 0, 1, 1, 1, 1, 1000000, smallPrice_pos, smallPrice_pos, smallPrice_pos, million_nonneg,
    smallPrice_highest, smallPrice_lowest⟩
  account := ⟨0, 100000, 100000, 100000, 100000, [], Paper.sampleCash_pos, Paper.sampleCash_pos, Paper.sampleCash_pos⟩
  observedAt := 0
  tradingEnabled := true

/-- The second of two buys of one moment counts both. -/
theorem hourly_rate_second :
    let counted := (approvals { limits := {} } ([.evaluate smallBuy] ++ [.evaluate smallBuy])).filter fun at_ =>
      smallBuy.observedAt - hour < at_ ∧ at_ ≤ smallBuy.observedAt
    (Machine.run step { limits := {} } ([.evaluate smallBuy] ++ [.evaluate smallBuy])).orderTimes = counted ∧
    smallBuy.observedAt ∈ counted ∧ counted.length ≤ 20 :=
  hourly_rate {} [.evaluate smallBuy] smallBuy (by simp [times, Request.times]) (by decide +kernel)
    (by decide +kernel)

end TradeAgent.Risk
