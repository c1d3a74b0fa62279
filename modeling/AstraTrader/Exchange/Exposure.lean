import AstraTrader.Exchange.Reconciliation

/-! How far the position can go: outstanding orders count as exposure, and an execution only
turns outstanding quantity into position. -/

namespace Astra
open FixedWidth

/-- What an order can still add to the position on one side. -/
def PaperOrder.outstanding (side : Side) (order : PaperOrder) : ℤ :=
  if order.isLive = true ∧ order.request.side = side then order.remainingQuantityUnits.toInt else 0

/-- The position on one side if everything outstanding there fills. -/
def PaperExchange.exposure (exchange : PaperExchange) (side : Side) : ℤ :=
  side.sign * exchange.ledger.state.positionUnits.toInt +
    (exchange.orders.map (·.outstanding side)).sum

section Moves
variable {config : PaperExchangeConfig} {event : MarketEvent}
  {before after : Executions × PaperOrder}

theorem outstanding_of_not_isLive {order : PaperOrder} (h : order.isLive = false) (side : Side) :
    order.outstanding side = 0 := by
  simp [PaperOrder.outstanding, h]

theorem outstanding_of_isLive {order : PaperOrder} (h : order.isLive = true) (side : Side) :
    order.outstanding side =
      if order.request.side = side then order.remainingQuantityUnits.toInt else 0 := by
  simp [PaperOrder.outstanding, h]

theorem OrderReconciled.outstanding_nonneg {fills : List PaperFill} {order : PaperOrder}
    (h : OrderReconciled fills order) (side : Side) : 0 ≤ order.outstanding side := by
  unfold PaperOrder.outstanding
  split_ifs with hlive
  · exact (h.live hlive.1).le
  · exact le_rfl

theorem isLive_rest {order : PaperOrder} (event : MarketEvent) :
    (order.rest event).isLive = true := by
  unfold PaperOrder.isLive PaperOrder.rest
  dsimp only
  split_ifs <;> rfl

theorem outstanding_take {order : PaperOrder} {fills : List PaperFill} {quantity : Int64}
    (h : OrderReconciled fills order) (hlive : order.isLive = true) (hpos : 0 < quantity.toInt)
    (side : Side) : (order.take quantity).outstanding side = order.outstanding side -
      if order.request.side = side then quantity.toInt else 0 := by
  have hremaining : (order.remainingQuantityUnits - quantity).toInt =
      order.remainingQuantityUnits.toInt - quantity.toInt :=
    int64_toInt_sub_of_nonneg (h.live hlive).le hpos.le
  rw [outstanding_of_isLive hlive]
  by_cases hzero : order.remainingQuantityUnits - quantity = 0
  · have hdead : (order.take quantity).isLive = false := by
      simp [PaperOrder.isLive, PaperOrder.take, hzero, isTerminal]
    rw [hzero, Int64.toInt_zero] at hremaining
    rw [outstanding_of_not_isLive hdead]
    split_ifs <;> omega
  · have hstill : (order.take quantity).isLive = true := by
      simp [PaperOrder.isLive, PaperOrder.take, hzero, isTerminal]
    rw [outstanding_of_isLive hstill]
    show (if order.request.side = side then
      (order.remainingQuantityUnits - quantity).toInt else 0) = _
    split_ifs <;> omega

theorem exposure_move (hsound : PerpetualLedger.Sound config.ledger before.1.ledger)
    (hr : OrderReconciled before.1.fills before.2) (hmove : Move config event before after)
    (side : Side) :
    side.sign * after.1.ledger.state.positionUnits.toInt + after.2.outstanding side ≤
      side.sign * before.1.ledger.state.positionUnits.toInt + before.2.outstanding side := by
  cases hmove with
  | reject books order reason =>
    have hdead : (order.reject reason).isLive = false := rfl
    rw [outstanding_of_not_isLive hdead]
    exact add_le_add_right (hr.outstanding_nonneg side) _
  | rest books order hwaiting =>
    have hsame : (order.rest event).outstanding side = order.outstanding side := by
      rw [outstanding_of_isLive (isLive_rest event),
        outstanding_of_isLive (isLive_of_waiting hwaiting)]
      rfl
    rw [hsame]
  | queue => exact le_rfl
  | cancel books order =>
    have hdead : { order with status := .cancelled, remainingQuantityUnits := 0 }.isLive =
      false := rfl
    rw [outstanding_of_not_isLive hdead]
    exact add_le_add_right (hr.outstanding_nonneg side) _
  | execute books order quantity price fee maker ledger mutation hlive _ hpos _ _ _ _ hfill hok =>
    rw [int64_pos_iff] at hpos
    obtain ⟨hposition, _, _⟩ := hsound.applyFill_books hfill hok
    have hposition' : ledger.state.positionUnits.toInt = books.ledger.state.positionUnits.toInt +
        order.request.side.sign * quantity.toInt := by
      rw [hposition, toInt_signedQuantity hpos]
    show side.sign * ledger.state.positionUnits.toInt + (order.take quantity).outstanding side ≤ _
    rw [hposition', outstanding_take hr hlive hpos side]
    -- the same side trades exposure for position, the other side only loses position
    cases hside : order.request.side <;> cases side <;> simp [Side.sign] <;> omega

end Moves

namespace PaperExchange
open Process

/-- A new order that fits, with everything outstanding on its side, under the limit. -/
def Fits (limit : ℤ) (exchange : PaperExchange) (request : OrderRequest) : Prop :=
  exchange.exposure request.side +
    (normalized exchange.config request).quantityUnits.toInt ≤ limit

structure Bounded (config : PaperExchangeConfig) (limit : ℤ) (exchange : PaperExchange) : Prop where
  consistent : Consistent config exchange
  exposure_le : ∀ side, exchange.exposure side ≤ limit

section Transitions
variable {heard : MarketEvent → Prop} {config : PaperExchangeConfig} {limit : ℤ}
  {s t : PaperExchange}

theorem exposure_split {exchange : PaperExchange} {pre post : List PaperOrder} {order : PaperOrder}
    (h : exchange.orders = pre ++ order :: post) (side : Side) :
    exchange.exposure side = side.sign * exchange.ledger.state.positionUnits.toInt +
      order.outstanding side + ((pre ++ post).map (·.outstanding side)).sum := by
  rw [exposure, h]
  simp only [List.map_append, List.map_cons, List.sum_append, List.sum_cons]
  ring

theorem Bounded.transition (h : Bounded config limit s)
    (hstep : Transition heard (Fits limit) s t) : Bounded config limit t := by
  refine ⟨h.consistent.transition hstep, fun side => ?_⟩
  have hle := h.exposure_le side
  cases hstep with
  | observe => exact hle
  | ignore => exact hle
  | mark priceUnits =>
    obtain ⟨hposition, _, _⟩ := h.consistent.booked.sound.markToMarket_books priceUnits
    unfold exposure markToMarket
    rw [hposition]
    exact hle
  | move event pre post order moved books _ hsplit hmove =>
    have hsound : PerpetualLedger.Sound s.config.ledger s.ledger :=
      h.consistent.config_eq ▸ h.consistent.booked.sound
    have hr : OrderReconciled s.fills order := h.consistent.orders order (by simp [hsplit])
    -- everything but the order that moves stands on both sides of the inequality
    have hcell := @exposure_move s.config event _ _ hsound hr hmove side
    rw [exposure_split hsplit] at hle
    rw [exposure_split rfl]
    dsimp only at hcell ⊢
    omega
  | append request market decisionTimeNs hadmitted hfits =>
    have hnew : (s.place request decisionTimeNs).outstanding side =
        if request.side = side then (normalized s.config request).quantityUnits.toInt else 0 := by
      simp [PaperOrder.outstanding, PaperOrder.isLive, isTerminal, place, normalized]
    have hsum : (s.append (s.place request decisionTimeNs)).exposure side =
        s.exposure side + (s.place request decisionTimeNs).outstanding side := by
      simp only [exposure, append, List.map_append, List.map_singleton, List.sum_append,
        List.sum_singleton]
      ring
    rw [hsum, hnew]
    split_ifs with hside
    · exact hside ▸ hfits
    · rwa [add_zero]
  | requestCancel pre post order due hsplit hlive =>
    rw [exposure_split hsplit] at hle
    rw [exposure_split rfl]
    have hsame : { order with status := .cancelPending, cancelDueTimeNs := some due }.outstanding
        side = order.outstanding side := by
      rw [outstanding_of_isLive hlive]
      exact outstanding_of_isLive rfl side
    rw [hsame]
    exact hle

theorem Bounded.abs_position_le (h : Bounded config limit s) :
    |s.ledger.state.positionUnits.toInt| ≤ limit := by
  have hnonneg : ∀ side, 0 ≤ (s.orders.map (·.outstanding side)).sum := by
    intro side
    refine List.sum_nonneg fun x hx => ?_
    obtain ⟨order, hmem, rfl⟩ := List.mem_map.mp hx
    exact (h.consistent.orders order hmem).outstanding_nonneg side
  have hbuy := h.exposure_le .buy
  have hsell := h.exposure_le .sell
  have hbuy0 := hnonneg .buy
  have hsell0 := hnonneg .sell
  simp only [exposure, Side.sign] at hbuy hsell
  rw [abs_le]
  omega

end Transitions

theorem Admitted.abs_position_add_le {config : PaperExchangeConfig} {exchange : PaperExchange}
    {request : OrderRequest} {market : MarketEvent} {decisionTimeNs : Int64}
    (h : exchange.Admitted request market decisionTimeNs)
    (hrisk : exchange.risk = { limits := config.risk, ledgerConfig := config.ledger })
    (hlimit : 0 < config.risk.maximumAbsolutePositionUnits) :
    |exchange.ledger.state.positionUnits.toInt +
        request.side.sign * request.quantityUnits.toInt| ≤
      config.risk.maximumAbsolutePositionUnits.toInt := by
  have hpasses := passes_of_refusal_eq_none h.passes
  have haccepts := RiskEngine.accepts_of_evaluate_eq_accept hpasses.risk
  rw [hrisk] at haccepts
  have hposition := haccepts.position hlimit
  rwa [Int128.le_def, RiskEngine.toInt_magnitude_projected, toInt_wide] at hposition

/-- What the gate promises of a call: an order that it lets through keeps the position it sees
within the limit. -/
def GateHolds (limit : ℤ) (exchange : PaperExchange) : ExchangeCall → Prop
  | .submit request decisionTimeNs => exchange.Stores request decisionTimeNs →
    |exchange.ledger.state.positionUnits.toInt +
      request.side.sign * request.quantityUnits.toInt| ≤ limit
  | _ => True

/-- A stored order also leaves room for what is outstanding on its side. -/
def LeavesRoom (limit : ℤ) (exchange : PaperExchange) : ExchangeCall → Prop
  | .submit request decisionTimeNs => exchange.Stores request decisionTimeNs →
    Fits limit exchange request
  | _ => True

instance (limit : ℤ) (exchange : PaperExchange) (c : ExchangeCall) :
    Decidable (LeavesRoom limit exchange c) := by
  cases c with
  | onMarketEvent event => exact .isTrue trivial
  | submit request decisionTimeNs => exact inferInstanceAs (Decidable (_ → _ ≤ _))
  | cancel clientOrderId requestTimeNs => exact .isTrue trivial

theorem permits_of_leavesRoom {limit : ℤ} {exchange : PaperExchange} {c : ExchangeCall}
    (h : LeavesRoom limit exchange c) : Permits (fun _ => True) (Fits limit) exchange c := by
  cases c with
  | onMarketEvent event => exact fun _ => trivial
  | submit request decisionTimeNs => exact fun hadmitted => h (stores_iff.mpr hadmitted)
  | cancel clientOrderId requestTimeNs => trivial

theorem bounded_new {config : PaperExchangeConfig} (hvalid : validConfig config = true) {limit : ℤ}
    (hlimit : 0 ≤ limit) : Bounded config limit (new config) := by
  refine ⟨consistent_new hvalid, fun side => ?_⟩
  have hflat : (new config).ledger.state.positionUnits = 0 :=
    (PerpetualLedger.new_state config.ledger).1
  rw [exposure, hflat]
  simpa [new] using hlimit

theorem run_position_le (config : PaperExchangeConfig)
    (hlimit : 0 < config.risk.maximumAbsolutePositionUnits) (calls : List ExchangeCall) :
    AllSteps call (GateHolds config.risk.maximumAbsolutePositionUnits.toInt) (new config) calls ∧
      (AllSteps call (LeavesRoom config.risk.maximumAbsolutePositionUnits.toInt) (new config)
          calls →
        |(run config calls).ledger.state.positionUnits.toInt| ≤
          config.risk.maximumAbsolutePositionUnits.toInt) := by
  have hpos := (int64_pos_iff _).mp hlimit
  refine ⟨AllSteps.of_split fun before c after he => ?_, fun hroom => ?_⟩
  · cases c with
    | onMarketEvent event => trivial
    | submit request decisionTimeNs =>
      intro hstores
      obtain ⟨market, hadmitted⟩ := stores_iff.mp hstores
      exact hadmitted.abs_position_add_le (configured_run config before).risk_eq hlimit
    | cancel clientOrderId requestTimeNs => trivial
  · cases hvalid : validConfig config with
    | false =>
      have hflat : (new config).ledger.state.positionUnits = 0 :=
        (PerpetualLedger.new_state config.ledger).1
      rw [(run_of_invalid hvalid calls).1, hflat]
      exact hpos.le
    | true =>
      have hsteps := run_transitions (hroom.imp fun _ _ => permits_of_leavesRoom)
      exact (chain_invariant (fun h hstep => h.transition hstep) (bounded_new hvalid hpos.le)
        hsteps).abs_position_le

theorem run_position_le_twoOrders :
    |(run { ledger := { initialCashUnits := 10000 }, risk := { maximumAbsolutePositionUnits := 5 } }
        [.onMarketEvent { sequence := 1, exchangeTimeNs := 1, receiveTimeNs := 1
                          bestBidUnits := 99, bestAskUnits := 101 },
         .submit { clientOrderId := "a", type := .limit, quantityUnits := 3
                   limitPriceUnits := some 99 } 1,
         .submit { clientOrderId := "b", type := .limit, quantityUnits := 2
                   limitPriceUnits := some 98 } 1,
         .onMarketEvent { sequence := 2, exchangeTimeNs := 2, receiveTimeNs := 2
                          bestBidUnits := 97, bestAskUnits := 101, tradePriceUnits := some 97
                          tradeQuantityUnits := 9, aggressorSide := some .sell }]
      ).ledger.state.positionUnits.toInt| ≤ (5 : Int64).toInt :=
  (run_position_le { ledger := { initialCashUnits := 10000 }
                     risk := { maximumAbsolutePositionUnits := 5 } } (by decide) _).2
    (by decide +kernel)

/-- Two resting orders, each within the limit, fill to twice the limit. -/
theorem not_forall_position_le : ¬ ∀ (config : PaperExchangeConfig) (calls : List ExchangeCall),
    0 < config.risk.maximumAbsolutePositionUnits →
      |(run config calls).ledger.state.positionUnits.toInt| ≤
        config.risk.maximumAbsolutePositionUnits.toInt := by
  intro h
  have hle := h
    { ledger := { initialCashUnits := 10000 }, risk := { maximumAbsolutePositionUnits := 5 } }
    [.onMarketEvent { sequence := 1, exchangeTimeNs := 1, receiveTimeNs := 1
                      bestBidUnits := 99, bestAskUnits := 101 },
     .submit { clientOrderId := "a", type := .limit, quantityUnits := 5
               limitPriceUnits := some 99 } 1,
     .submit { clientOrderId := "b", type := .limit, quantityUnits := 5
               limitPriceUnits := some 98 } 1,
     .onMarketEvent { sequence := 2, exchangeTimeNs := 2, receiveTimeNs := 2
                      bestBidUnits := 97, bestAskUnits := 101, tradePriceUnits := some 97
                      tradeQuantityUnits := 20, aggressorSide := some .sell }] (by decide)
  revert hle
  decide +kernel

end PaperExchange
end Astra
