import AstraTrader.Exchange.Journal
import AstraTrader.Exchange.Redelivery

/-! The drawdown limit as a halt. The limit is checked before an order is stored, never lifted
by a flat ledger's marks, and has no exception for orders that would reduce a position. -/

namespace Astra
open FixedWidth Process

namespace RiskEngine

/-- The last check of `evaluate`. -/
def Breached (limits : RiskLimits) (ledger : LedgerState) : Prop :=
  0 < limits.maximumDrawdownUnits ∧ netPnl ledger < wide (-limits.maximumDrawdownUnits)

instance (limits : RiskLimits) (ledger : LedgerState) : Decidable (Breached limits ledger) :=
  inferInstanceAs (Decidable (_ ∧ _))

theorem not_breached_of_accept {risk : RiskEngine} {request : OrderRequest} {market : MarketEvent}
    {ledger : LedgerState} {decisionTimeNs : Int64}
    (h : risk.evaluate request market ledger decisionTimeNs = .accept) :
    ¬ Breached risk.limits ledger := by
  unfold evaluate at h
  dsimp only at h
  obtain ⟨_, h⟩ := passed_of_ite_eq (by decide) h
  obtain ⟨_, h⟩ := passed_of_ite_eq (by decide) h
  obtain ⟨_, h⟩ := passed_of_ite_eq (by decide) h
  obtain ⟨_, h⟩ := passed_of_ite_eq (by decide) h
  obtain ⟨_, h⟩ := passed_of_ite_eq (by decide) h
  obtain ⟨_, h⟩ := passed_of_ite_eq (by decide) h
  obtain ⟨_, h⟩ := passed_of_ite_eq (by decide) h
  obtain ⟨_, h⟩ := passed_of_ite_eq (by decide) h
  exact (passed_of_ite_eq (by decide) h).1

theorem toInt_netPnl (ledger : LedgerState) : (netPnl ledger).toInt =
    ledger.realizedPnlUnits.toInt + ledger.unrealizedPnlUnits.toInt -
      ledger.totalFeeUnits.toInt := by
  have hr := ledger.realizedPnlUnits.le_toInt
  have hr' := ledger.realizedPnlUnits.toInt_lt
  have hu := ledger.unrealizedPnlUnits.le_toInt
  have hu' := ledger.unrealizedPnlUnits.toInt_lt
  have hf := ledger.totalFeeUnits.le_toInt
  have hf' := ledger.totalFeeUnits.toInt_lt
  have hsum : (wide ledger.realizedPnlUnits + wide ledger.unrealizedPnlUnits).toInt =
      ledger.realizedPnlUnits.toInt + ledger.unrealizedPnlUnits.toInt :=
    Int128.toInt_add ⟨by simp only [toInt_wide]; omega, by simp only [toInt_wide]; omega⟩
  unfold netPnl
  rw [Int128.toInt_sub, hsum, toInt_wide]
  rw [hsum, toInt_wide]
  exact ⟨by omega, by omega⟩

theorem breached_iff {limits : RiskLimits} {ledger : LedgerState} :
    Breached limits ledger ↔ 0 < limits.maximumDrawdownUnits.toInt ∧
      ledger.realizedPnlUnits.toInt + ledger.unrealizedPnlUnits.toInt -
        ledger.totalFeeUnits.toInt < -limits.maximumDrawdownUnits.toInt := by
  unfold Breached
  rw [int64_pos_iff, Int128.lt_def, toInt_netPnl, toInt_wide]
  refine and_congr_right fun hpos => ?_
  have hlt := limits.maximumDrawdownUnits.toInt_lt
  have hneg : (-limits.maximumDrawdownUnits).toInt = -limits.maximumDrawdownUnits.toInt := by
    rw [Int64.toInt_neg]
    exact Int.bmod_eq_of_le (m := 2 ^ 64) (by omega) (by omega)
  rw [hneg]

end RiskEngine

namespace PaperExchange
open PerpetualLedger RiskEngine

/-- Flat, with nothing live, and with fees and losses beyond the drawdown limit. -/
structure Halted (exchange : PaperExchange) : Prop where
  dead : ∀ order ∈ exchange.orders, order.isLive = false
  flat : exchange.ledger.state.positionUnits = 0
  limit : 0 < exchange.risk.limits.maximumDrawdownUnits.toInt
  lost : exchange.ledger.state.realizedPnlUnits.toInt - exchange.ledger.state.totalFeeUnits.toInt <
    -exchange.risk.limits.maximumDrawdownUnits.toInt

/-- The exchange `t` has done nothing since `s` but hear events. -/
structure Stopped (s t : PaperExchange) : Prop where
  orders : t.orders = s.orders
  fills : t.fills = s.fills
  books : SameBooks s.ledger t.ledger
  risk : t.risk = s.risk

theorem Stopped.refl (s : PaperExchange) : Stopped s s := ⟨rfl, rfl, ⟨rfl, rfl, rfl⟩, rfl⟩

section Transitions
variable {heard : MarketEvent → Prop} {allow : PaperExchange → OrderRequest → Prop}
  {config : PaperExchangeConfig} {s t u : PaperExchange}

theorem Stopped.halted (h : Stopped s t) (hs : s.Halted) : t.Halted := by
  have hposition : s.ledger.state.unmarked.positionUnits = t.ledger.state.unmarked.positionUnits :=
    congrArg LedgerState.positionUnits h.books.state
  have hrealized : s.ledger.state.unmarked.realizedPnlUnits =
      t.ledger.state.unmarked.realizedPnlUnits :=
    congrArg LedgerState.realizedPnlUnits h.books.state
  have hfee : s.ledger.state.unmarked.totalFeeUnits = t.ledger.state.unmarked.totalFeeUnits :=
    congrArg LedgerState.totalFeeUnits h.books.state
  refine ⟨h.orders ▸ hs.dead, hposition.symm.trans hs.flat, h.risk ▸ hs.limit, ?_⟩
  have hlost := hs.lost
  rw [h.risk]
  rwa [show s.ledger.state.realizedPnlUnits = t.ledger.state.realizedPnlUnits from hrealized,
    show s.ledger.state.totalFeeUnits = t.ledger.state.totalFeeUnits from hfee] at hlost

/-- A flat ledger has nothing unrealized, so its limit stays breached. -/
theorem Halted.breached (h : s.Halted) (hs : Consistent config s) :
    Breached s.risk.limits s.ledger.state := by
  have hflat : s.ledger.state.toUnbounded.unrealizedPnl = 0 := by
    have hposition : s.ledger.state.toUnbounded.position = 0 := congrArg Int64.toInt h.flat
    rw [hs.booked.sound.balanced.unrealized, hposition, Int.sign_zero, zero_mul]
  have hunrealized : s.ledger.state.unrealizedPnlUnits.toInt = 0 := hflat
  refine breached_iff.mpr ⟨h.limit, ?_⟩
  rw [hunrealized, add_zero]
  exact h.lost

theorem Halted.not_admitted (h : s.Halted) (hs : Consistent config s) {request : OrderRequest}
    {market : MarketEvent} {decisionTimeNs : Int64} :
    ¬ s.Admitted request market decisionTimeNs := fun hadmitted =>
  not_breached_of_accept (passes_of_refusal_eq_none hadmitted.passes).risk (h.breached hs)

/-- In a halted exchange only events and marks are left, and no mark changes the books. -/
theorem Stopped.transition (h : Stopped s t) (hs : s.Halted) (ht : Consistent config t)
    (hstep : Transition heard allow t u) : Stopped s u := by
  have hlive : ∀ {pre post : List PaperOrder} {order : PaperOrder},
      t.orders = pre ++ order :: post → order.isLive ≠ true := by
    intro pre post order hsplit
    rw [(h.halted hs).dead order (by simp [hsplit])]
    exact Bool.false_ne_true
  cases hstep with
  | observe => exact ⟨h.orders, h.fills, h.books, h.risk⟩
  | ignore => exact ⟨h.orders, h.fills, h.books, h.risk⟩
  | mark priceUnits => exact ⟨h.orders, h.fills, h.books.markToMarket priceUnits, h.risk⟩
  | move event pre post order moved books _ hsplit hmove =>
    exact absurd hmove.order_eq.2.2.2 (hlive hsplit)
  | append request market decisionTimeNs hadmitted =>
    exact absurd hadmitted ((h.halted hs).not_admitted ht)
  | requestCancel pre post order due hsplit horder => exact absurd horder (hlive hsplit)

end Transitions

theorem Halted.valid {config : PaperExchangeConfig} {calls : List ExchangeCall}
    (h : (run config calls).Halted) : validConfig config = true := by
  by_contra hvalid
  have hbooks := (run_of_invalid (Bool.eq_false_iff.mpr hvalid) calls).1
  have hledger : (run config calls).ledger = .new config.ledger :=
    congrArg Executions.ledger hbooks
  obtain ⟨_, hfee, hrealized⟩ := new_state config.ledger
  have hlost := h.lost
  have hlimit := h.limit
  rw [hledger, hfee, hrealized] at hlost
  simp only [Int64.toInt_zero] at hlost
  omega

/-- The request is answered with the dead order that has its id, or rejected. -/
def TurnsAway (exchange : PaperExchange) (request : OrderRequest) (decisionTimeNs : Int64) : Prop :=
  (exchange.submit request decisionTimeNs).1 = exchange ∧
    ((∃ order ∈ exchange.orders, order.request.clientOrderId = request.clientOrderId ∧
        order.isLive = false ∧ (exchange.submit request decisionTimeNs).2 =
          { orderId := order.orderId, status := order.status, duplicate := true
            reason := "duplicate_client_order_id" }) ∨
      (∀ order ∈ exchange.orders, order.request.clientOrderId ≠ request.clientOrderId) ∧
        (exchange.submit request decisionTimeNs).2.status = .rejected ∧
        (exchange.submit request decisionTimeNs).2.duplicate = false)

theorem Halted.turnsAway {config : PaperExchangeConfig} {exchange : PaperExchange}
    (h : exchange.Halted) (hconsistent : Consistent config exchange) (request : OrderRequest)
    (decisionTimeNs : Int64) : TurnsAway exchange request decisionTimeNs := by
  by_cases hstored : ∃ order ∈ exchange.orders,
      order.request.clientOrderId = request.clientOrderId
  · obtain ⟨order, horder, hname⟩ := hstored
    have hanswer := hconsistent.indexed.submit_of_stored horder hname decisionTimeNs
    rw [TurnsAway, hanswer]
    exact ⟨rfl, .inl ⟨order, horder, hname, h.dead order horder, rfl⟩⟩
  · have hnew : ∀ order ∈ exchange.orders,
        order.request.clientOrderId ≠ request.clientOrderId :=
      fun order horder hname => hstored ⟨order, horder, hname⟩
    rcases submit_outcome exchange request decisionTimeNs with
      ⟨i, order, hfind, _⟩ | ⟨hsame, hrejected, hfirst⟩ | ⟨market, _, hadmitted, _⟩
    · obtain ⟨horder, hname⟩ := hconsistent.indexed.named_of_findOrder hfind
      exact absurd hname (hnew order horder)
    · exact ⟨hsame, .inr ⟨hnew, hrejected, hfirst⟩⟩
    · exact absurd hadmitted (h.not_admitted hconsistent)

/-- What a halted exchange does from then on. -/
structure StaysHalted (config : PaperExchangeConfig) (calls more : List ExchangeCall) : Prop where
  halted : (run config (calls ++ more)).Halted
  stopped : Stopped (run config calls) (run config (calls ++ more))
  turnsAway : ∀ request decisionTimeNs,
    TurnsAway (run config (calls ++ more)) request decisionTimeNs

/-- A halt is final: whatever is called afterwards, nothing is stored, filled or booked. -/
theorem run_staysHalted (config : PaperExchangeConfig) (calls more : List ExchangeCall)
    (h : (run config calls).Halted) : StaysHalted config calls more := by
  have hconsistent := consistent_run h.valid calls
  have hrun : Consistent config (run config (calls ++ more)) ∧
      Stopped (run config calls) (run config (calls ++ more)) := by
    rw [run_append]
    refine chain_invariant (I := fun t => Consistent config t ∧ Stopped (run config calls) t)
      (fun ht hstep => ?_) ⟨hconsistent, .refl _⟩ (foldl_transitions _ more)
    exact ⟨ht.1.transition hstep, ht.2.transition h ht.1 hstep⟩
  obtain ⟨hthere, hstopped⟩ := hrun
  have hhalted := hstopped.halted h
  exact ⟨hhalted, hstopped, hhalted.turnsAway hthere⟩

theorem run_staysHalted_roundTrip :
    StaysHalted { ledger := { initialCashUnits := 10000 }, risk := { maximumDrawdownUnits := 5 } }
      [.onMarketEvent { sequence := 1, exchangeTimeNs := 1, receiveTimeNs := 1
                        bestBidUnits := 99, bestAskUnits := 101 },
       .submit { clientOrderId := "a", quantityUnits := 5 } 1,
       .submit { clientOrderId := "b", side := .sell, quantityUnits := 5 } 1]
      [.onMarketEvent { sequence := 2, exchangeTimeNs := 2, receiveTimeNs := 2
                        bestBidUnits := 199, bestAskUnits := 201 },
       .submit { clientOrderId := "c", quantityUnits := 1 } 2] :=
  run_staysHalted _ _ _
    ⟨by decide +kernel, by decide +kernel, by decide +kernel, by decide +kernel⟩

end PaperExchange
end Astra
