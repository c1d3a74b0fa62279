import AstraTrader.Exchange.Matching
import Mathlib.Algebra.BigOperators.Ring.List

/-! Quantities in whole steps. `submit` cuts a request down to whole steps once; while the market
shows and trades whole steps, nothing that is queued, filled or held afterwards breaks one. -/

namespace Astra
open Process FixedWidth

structure MarketEvent.InSteps (step : ℤ) (event : MarketEvent) : Prop where
  displayed : event.Displayed
  bid : step ∣ event.bidQuantityUnits.toInt
  ask : step ∣ event.askQuantityUnits.toInt
  trade : step ∣ event.tradeQuantityUnits.toInt

instance (step : ℤ) (event : MarketEvent) : Decidable (event.InSteps step) :=
  decidable_of_iff (event.Displayed ∧ step ∣ event.bidQuantityUnits.toInt ∧
    step ∣ event.askQuantityUnits.toInt ∧ step ∣ event.tradeQuantityUnits.toInt)
    ⟨fun h => ⟨h.1, h.2.1, h.2.2.1, h.2.2.2⟩, fun h => ⟨h.displayed, h.bid, h.ask, h.trade⟩⟩

def ExchangeCall.InSteps (step : ℤ) : ExchangeCall → Prop
  | .onMarketEvent event => event.InSteps step
  | .submit _ _ | .cancel _ _ => True

instance (step : ℤ) : DecidablePred (ExchangeCall.InSteps step)
  | .onMarketEvent event => inferInstanceAs (Decidable (event.InSteps step))
  | .submit _ _ | .cancel _ _ => isTrue trivial

structure PaperOrder.InSteps (step : ℤ) (order : PaperOrder) : Prop where
  requested : step ∣ order.request.quantityUnits.toInt
  remaining : step ∣ order.remainingQuantityUnits.toInt
  queue : step ∣ order.queueAheadUnits.toInt
  queue_nonneg : 0 ≤ order.queueAheadUnits.toInt
  live : order.isLive = true → 0 < order.remainingQuantityUnits.toInt

def FillsInSteps (step : ℤ) (fills : List PaperFill) : Prop :=
  ∀ fill ∈ fills, step ∣ fill.quantityUnits.toInt

section Orders
variable {step : ℤ} {config : PaperExchangeConfig} {event : MarketEvent} {books : Executions}
  {order : PaperOrder} {available tradePriceUnits : Int64} {aggressorSide : Side}

theorem FillsInSteps.record (h : FillsInSteps step books.fills) {quantity : Int64}
    (hquantity : step ∣ quantity.toInt) (order : PaperOrder) (price fee realized : Int64)
    (maker : Bool) (event : MarketEvent) :
    FillsInSteps step (books.record order quantity price fee realized maker event).fills :=
  List.forall_mem_append.mpr ⟨h, List.forall_mem_singleton.mpr hquantity⟩

theorem PaperOrder.InSteps.reject (h : order.InSteps step) (reason : String) :
    (order.reject reason).InSteps step :=
  ⟨h.requested, h.remaining, h.queue, h.queue_nonneg, fun hlive => absurd hlive (by simp [
    isLive_reject])⟩

theorem PaperOrder.InSteps.take (h : order.InSteps step) {quantity : Int64}
    (hquantity : step ∣ quantity.toInt) (hpos : 0 < quantity.toInt)
    (hle : quantity.toInt ≤ order.remainingQuantityUnits.toInt) :
    (order.take quantity).InSteps step := by
  have hrest : (order.remainingQuantityUnits - quantity).toInt =
      order.remainingQuantityUnits.toInt - quantity.toInt :=
    int64_toInt_sub_of_nonneg (hpos.le.trans hle) hpos.le
  refine ⟨h.requested, ?_, h.queue, h.queue_nonneg, fun hlive => ?_⟩
  · rw [PaperOrder.take, hrest]
    exact dvd_sub h.remaining hquantity
  · rw [PaperOrder.take] at hlive ⊢
    dsimp only at hlive ⊢
    have hne : (order.remainingQuantityUnits - quantity).toInt ≠ 0 := by
      intro hzero
      rw [if_pos (Int64.toInt_inj.mp (hzero.trans Int64.toInt_zero.symm))] at hlive
      simp [PaperOrder.isLive, isTerminal] at hlive
    omega

theorem Activated.inSteps {cell : Executions × PaperOrder}
    (h : Activated config event books order cell) (hfills : FillsInSteps step books.fills)
    (horder : order.InSteps step) (hevent : event.InSteps step) :
    FillsInSteps step cell.1.fills ∧ cell.2.InSteps step := by
  have hqueue := h.queue_nonneg horder.queue_nonneg hevent.displayed
  cases h with
  | idle => exact ⟨hfills, horder⟩
  | refused reason => exact ⟨hfills, horder.reject reason⟩
  | rested hwaiting =>
    refine ⟨hfills, horder.requested, horder.remaining, ?_, hqueue, fun _ =>
      horder.live (isLive_of_waiting hwaiting)⟩
    simp only [PaperOrder.rest]
    split_ifs
    · exact hevent.bid
    · exact hevent.ask
    · exact horder.queue
  | taken price fee ledger mutation =>
    have hbefore : FillsInSteps step ({ books with ledger } : Executions).fills := hfills
    refine ⟨hbefore.record horder.remaining _ _ _ _ _ _, horder.requested, ?_, horder.queue,
      horder.queue_nonneg, fun hlive => ?_⟩
    · simp [PaperOrder.take]
    · rw [isLive_take_all] at hlive
      exact absurd hlive Bool.false_ne_true

theorem dvd_min_of_dvd {a b c : ℤ} (hb : a ∣ b) (hc : a ∣ c) : a ∣ min b c := by
  rcases min_choice b c with h | h <;> rwa [h]

theorem PaperOrder.InSteps.advance (h : order.InSteps step) (havailable : 0 < available)
    (hdvd : step ∣ available.toInt) :
    step ∣ (order.behindQueue available).toInt ∧ (order.advance available).InSteps step := by
  obtain ⟨hbehind, hahead⟩ := toInt_behindQueue h.queue_nonneg havailable
  have hserved := dvd_min_of_dvd h.queue hdvd
  refine ⟨hbehind ▸ dvd_sub hdvd hserved, h.requested, h.remaining, ?_, ?_, h.live⟩
  · rw [hahead]
    exact dvd_sub h.queue hserved
  · rw [hahead]
    exact sub_nonneg.mpr (min_le_left _ _)

theorem Served.inSteps {cell : (Executions × Int64) × PaperOrder}
    (h : Served config event tradePriceUnits aggressorSide books available order cell)
    (hfills : FillsInSteps step books.fills) (hdvd : step ∣ available.toInt)
    (horder : order.InSteps step) :
    FillsInSteps step cell.1.1.fills ∧ step ∣ cell.1.2.toInt ∧ cell.2.InSteps step := by
  cases h with
  | passedOver => exact ⟨hfills, hdvd, horder⟩
  | queued havailable =>
    obtain ⟨hbehind, hadvanced⟩ := horder.advance havailable hdvd
    exact ⟨hfills, hbehind, hadvanced⟩
  | refused quantity reason havailable hmeets hahead hquantity =>
    obtain ⟨hbehind, hadvanced⟩ := horder.advance havailable hdvd
    obtain ⟨hmin, _, hrest⟩ := toInt_leftover horder.live hmeets.isLive hahead hquantity
    refine ⟨hfills, ?_, hadvanced.reject reason⟩
    rw [hrest, hmin]
    exact dvd_sub hbehind (dvd_min_of_dvd horder.remaining hbehind)
  | filled quantity fee ledger mutation havailable hmeets hahead hquantity =>
    obtain ⟨hbehind, hadvanced⟩ := horder.advance havailable hdvd
    obtain ⟨hmin, hpos, hrest⟩ := toInt_leftover horder.live hmeets.isLive hahead hquantity
    have hwhole : step ∣ quantity.toInt := hmin ▸ dvd_min_of_dvd horder.remaining hbehind
    have hle : quantity.toInt ≤ order.remainingQuantityUnits.toInt := hmin ▸ min_le_left _ _
    have hbefore : FillsInSteps step ({ books with ledger } : Executions).fills := hfills
    refine ⟨hbefore.record hwhole _ _ _ _ _ _, ?_, hadvanced.take hwhole hpos hle⟩
    rw [hrest]
    exact dvd_sub hbehind hwhole

theorem PaperOrder.InSteps.applyDueCancel (h : order.InSteps step) (event : MarketEvent) :
    (order.applyDueCancel event).InSteps step := by
  unfold PaperOrder.applyDueCancel
  split
  · split_ifs
    · exact ⟨h.requested, dvd_zero step, h.queue, h.queue_nonneg, fun hlive => absurd hlive
        (by simp [isLive, isTerminal])⟩
    · exact h
  · exact h

end Orders

namespace PaperExchange

/-- Everything that the exchange holds is in whole steps. -/
structure InSteps (step : ℤ) (exchange : PaperExchange) : Prop where
  market : ∀ event ∈ exchange.market, event.InSteps step
  fills : FillsInSteps step exchange.fills
  orders : ∀ order ∈ exchange.orders, order.InSteps step

section Calls
variable {step : ℤ} {exchange : PaperExchange} {event : MarketEvent}

theorem InSteps.opened (h : exchange.InSteps step) (hevent : event.InSteps step) :
    (exchange.opened event).InSteps step := by
  have hsweep : FillsInSteps step (exchange.opened event).fills ∧
      ∀ order ∈ (exchange.opened event).orders, order.InSteps step := by
    refine sweep_invariant (I := fun (books : Executions) orders =>
      FillsInSteps step books.fills ∧ ∀ order ∈ orders, PaperOrder.InSteps step order)
      (fun books pre order post hs => ?_) ⟨h.fills, h.orders⟩
    have hactivated : Activated exchange.config event books order
        (Executions.activateDue exchange.config event books order) := activateDue_activated
    obtain ⟨hfills, horder⟩ := hactivated.inSteps hs.1 (hs.2 order (by simp)) hevent
    exact ⟨hfills, forall_mem_replace hs.2 horder⟩
  exact ⟨fun heard hheard => Option.mem_some_iff.mp hheard ▸ hevent, hsweep.1, hsweep.2⟩

theorem InSteps.matchTrade (h : exchange.InSteps step) (hevent : event.InSteps step) :
    (exchange.matchTrade event).InSteps step := by
  rcases matchTrade_cases exchange event with he | ⟨price, side, _, _, _, he⟩
  · rwa [he]
  · have hsweep : (FillsInSteps step (sweep (Executions.matchOrder exchange.config event price side)
          (exchange.toExecutions, event.tradeQuantityUnits) exchange.orders).1.1.fills ∧
        step ∣ (sweep (Executions.matchOrder exchange.config event price side)
          (exchange.toExecutions, event.tradeQuantityUnits) exchange.orders).1.2.toInt) ∧
        ∀ order ∈ (sweep (Executions.matchOrder exchange.config event price side)
          (exchange.toExecutions, event.tradeQuantityUnits) exchange.orders).2,
          order.InSteps step := by
      refine sweep_invariant (I := fun (pass : Executions × Int64) orders =>
        (FillsInSteps step pass.1.fills ∧ step ∣ pass.2.toInt) ∧
          ∀ order ∈ orders, PaperOrder.InSteps step order) (fun pass pre order post hs => ?_)
        ⟨⟨h.fills, hevent.trade⟩, h.orders⟩
      have hserved : Served exchange.config event price side pass.1 pass.2 order
          (Executions.matchOrder exchange.config event price side pass order) :=
        matchOrder_served (hs.2 order (by simp)).live
      obtain ⟨hfills, hleft, horder⟩ := hserved.inSteps hs.1.1 hs.1.2 (hs.2 order (by simp))
      exact ⟨⟨hfills, hleft⟩, forall_mem_replace hs.2 horder⟩
    rw [he]
    exact ⟨h.market, hsweep.1.1, hsweep.2⟩

theorem InSteps.onMarketEvent (h : exchange.InSteps step) (hevent : event.InSteps step) :
    (exchange.onMarketEvent event).1.InSteps step := by
  unfold PaperExchange.onMarketEvent
  split_ifs
  · have hmatched := (h.opened hevent).matchTrade hevent
    exact ⟨hmatched.market, hmatched.fills, List.forall_mem_map.mpr fun order horder =>
      (hmatched.orders order horder).applyDueCancel event⟩
  · exact ⟨h.market, h.fills, h.orders⟩

theorem inSteps_place (hvalid : validConfig exchange.config = true) {request : OrderRequest}
    {market : MarketEvent} {decisionTimeNs : Int64}
    (hpasses : exchange.Passes request market decisionTimeNs) :
    (exchange.place request decisionTimeNs).InSteps exchange.config.quantityStepUnits.toInt := by
  have hquantity := (int64_pos_iff _).mp
    (RiskEngine.accepts_of_evaluate_eq_accept hpasses.risk).quantity
  have hwhole : exchange.config.quantityStepUnits.toInt ∣
      (normalized exchange.config request).quantityUnits.toInt := by
    rw [toInt_normalized (quantityStep_pos hvalid) hquantity]
    exact dvd_mul_left _ _
  exact ⟨hwhole, hwhole, dvd_zero _, Int64.toInt_zero.ge, fun _ =>
    (int64_pos_iff _).mp hpasses.quantity⟩

theorem InSteps.submit (hvalid : validConfig exchange.config = true)
    (h : exchange.InSteps exchange.config.quantityStepUnits.toInt) (request : OrderRequest)
    (decisionTimeNs : Int64) : (exchange.submit request decisionTimeNs).1.InSteps
      exchange.config.quantityStepUnits.toInt := by
  rcases submit_cases exchange request decisionTimeNs with he | ⟨market, hadmitted, he⟩ <;> rw [he]
  · exact h
  have hplaced : (exchange.place request decisionTimeNs).InSteps
      exchange.config.quantityStepUnits.toInt :=
    inSteps_place hvalid (passes_of_refusal_eq_none hadmitted.passes)
  have hevent := h.market market (by rw [hadmitted.heard]; rfl)
  unfold store
  split_ifs
  · have hactivated : Activated exchange.config market exchange.toExecutions
        (exchange.place request decisionTimeNs) (Executions.activate exchange.config market
          exchange.toExecutions (exchange.place request decisionTimeNs)) :=
      activate_activated (.inl rfl)
    obtain ⟨hfills, hstored⟩ := hactivated.inSteps h.fills hplaced hevent
    exact ⟨h.market, hfills, List.forall_mem_append.mpr ⟨h.orders,
      List.forall_mem_singleton.mpr hstored⟩⟩
  · exact ⟨h.market, h.fills, List.forall_mem_append.mpr ⟨h.orders,
      List.forall_mem_singleton.mpr hplaced⟩⟩

theorem InSteps.cancel (h : exchange.InSteps step) (clientOrderId : String)
    (requestTimeNs : Int64) : (exchange.cancel clientOrderId requestTimeNs).1.InSteps step := by
  rcases cancel_cases exchange clientOrderId requestTimeNs with
    he | ⟨pre, order, post, hsplit, _, hlive, _, he⟩ <;> rw [he]
  · exact h
  · have horder := h.orders order (by simp [hsplit])
    exact ⟨h.market, h.fills, forall_mem_replace (hsplit ▸ h.orders)
      ⟨horder.requested, horder.remaining, horder.queue, horder.queue_nonneg, fun _ =>
        horder.live hlive⟩⟩

end Calls

/-- The quantities of a run are whole steps, in orders, fills and position alike. -/
structure TradesInSteps (config : PaperExchangeConfig) (exchange : PaperExchange) : Prop where
  orders : ∀ order ∈ exchange.orders,
    config.quantityStepUnits.toInt ∣ order.request.quantityUnits.toInt ∧
    config.quantityStepUnits.toInt ∣ order.remainingQuantityUnits.toInt ∧
    config.quantityStepUnits.toInt ∣ order.filledQuantityUnits.toInt ∧
    config.quantityStepUnits.toInt ∣ order.queueAheadUnits.toInt
  fills : ∀ fill ∈ exchange.fills, config.quantityStepUnits.toInt ∣ fill.quantityUnits.toInt
  position : config.quantityStepUnits.toInt ∣ exchange.ledger.state.positionUnits.toInt

theorem inSteps_run {config : PaperExchangeConfig} (hvalid : validConfig config = true)
    {calls : List ExchangeCall}
    (hcalls : ∀ c ∈ calls, c.InSteps config.quantityStepUnits.toInt) :
    (run config calls).InSteps config.quantityStepUnits.toInt := by
  refine (run_invariant (I := fun s => Consistent config s ∧
    s.InSteps config.quantityStepUnits.toInt) (fun s c hs hc => ⟨hs.1.call c, ?_⟩)
    ⟨consistent_new hvalid, ?_, ?_, ?_⟩ (AllSteps.of_mem _ hcalls)).2
  · cases c with
    | onMarketEvent event => exact hs.2.onMarketEvent hc
    | submit request decisionTimeNs =>
      have hconfig := hs.1.config_eq
      have hsubmit := InSteps.submit (hconfig ▸ hvalid) (hconfig ▸ hs.2) request decisionTimeNs
      rwa [hconfig] at hsubmit
    | cancel clientOrderId requestTimeNs => exact hs.2.cancel clientOrderId requestTimeNs
  · exact fun event hevent => absurd hevent (by simp [new])
  · exact fun fill hfill => absurd hfill (by simp [new])
  · exact fun order horder => absurd horder (by simp [new])

theorem dvd_sum_of_forall {α : Type} {step : ℤ} {f : α → ℤ} {as : List α}
    (h : ∀ a ∈ as, step ∣ f a) : step ∣ (as.map f).sum :=
  List.dvd_sum (List.forall_mem_map.mpr h)

theorem run_tradesInSteps (config : PaperExchangeConfig) (calls : List ExchangeCall)
    (hvalid : validConfig config = true)
    (hcalls : ∀ c ∈ calls, c.InSteps config.quantityStepUnits.toInt) :
    TradesInSteps config (run config calls) := by
  have hs := consistent_run hvalid calls
  have hsteps := inSteps_run hvalid hcalls
  refine ⟨fun order horder => ?_, hsteps.fills, ?_⟩
  · have hown := hsteps.orders order horder
    refine ⟨hown.requested, hown.remaining, ?_, hown.queue⟩
    rw [(hs.orders order horder).filled]
    exact dvd_sum_of_forall fun fill hfill => hsteps.fills fill (List.mem_of_mem_filter hfill)
  · rw [hs.booked.position]
    refine dvd_sum_of_forall fun fill hfill => ?_
    obtain ⟨order, _, _, _, _, hpos⟩ := hs.linked fill hfill
    rw [PaperFill.signedUnits, toInt_signedQuantity hpos]
    exact Dvd.dvd.mul_left (hsteps.fills fill hfill) _

/-- Steps of ten: a request of 37 rests as 30 behind 20, and a print of 40 fills 20 of it. -/
theorem run_tradesInSteps_partialFill :
    TradesInSteps { ledger := { initialCashUnits := 10000 }, quantityStepUnits := 10 }
      (run { ledger := { initialCashUnits := 10000 }, quantityStepUnits := 10 }
        [.onMarketEvent { sequence := 1, exchangeTimeNs := 1, receiveTimeNs := 1
                          bestBidUnits := 99, bestAskUnits := 101, bidQuantityUnits := 20 },
         .submit { clientOrderId := "a", type := .limit, quantityUnits := 37
                   limitPriceUnits := some 99 } 1,
         .onMarketEvent { sequence := 2, exchangeTimeNs := 2, receiveTimeNs := 2
                          bestBidUnits := 99, bestAskUnits := 101
                          tradePriceUnits := some 99, tradeQuantityUnits := 40
                          aggressorSide := some .sell }]) :=
  run_tradesInSteps _ _ (by decide +kernel) (by decide +kernel)

end PaperExchange
end Astra
