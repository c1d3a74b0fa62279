import AstraTrader.Exchange.LifeCycle

/-! A trader that sends only market orders, one at a time: while no order is live an event marks
the ledger and does nothing else, and a market order is filled or rejected by the first event
that finds it active. -/

namespace Astra
open Process FixedWidth

/-- What becomes of a market order that is due: it is rejected, or filled in whole. -/
inductive MarketOutcome (config : PaperExchangeConfig) (event : MarketEvent) (books : Executions)
    (order : PaperOrder) : Executions × PaperOrder → Prop
  | rejected (reason : String) :
      (reason = "invalid_slipped_price" ↔ slippedPrice (event.touch order.request.side)
        order.request.side config.marketSlippagePpm = none) →
      MarketOutcome config event books order (books, order.reject reason)
  | filled (price fee : Int64) (ledger : PerpetualLedger) (mutation : LedgerMutation) :
      slippedPrice (event.touch order.request.side) order.request.side
        config.marketSlippagePpm = some price →
      Executions.fillFee config price order.remainingQuantityUnits false = some fee →
      books.ledger.applyFill (signedQuantity order.request.side order.remainingQuantityUnits)
        price fee = (ledger, mutation) → mutation.succeeded = true →
      MarketOutcome config event books order
        ({ books with ledger }.record order order.remainingQuantityUnits price fee
          mutation.realizedPnlUnits false event, order.take order.remainingQuantityUnits)

section Orders
variable {config : PaperExchangeConfig} {event : MarketEvent} {books : Executions}
  {order : PaperOrder}

theorem activateDue_of_settled (h : order.isLive = false) :
    Executions.activateDue config event books order = (books, order) := by
  refine if_neg fun hdue => ?_
  rw [isLive_of_waiting hdue.1] at h
  exact absurd h (by decide)

theorem applyDueCancel_of_ne (h : order.status ≠ .cancelPending) :
    order.applyDueCancel event = order := by
  unfold PaperOrder.applyDueCancel
  split
  · exact if_neg fun hdue => h hdue.1
  · rfl

theorem matchOrder_of_not_meets {pass : Executions × Int64} {tradePriceUnits : Int64}
    {aggressorSide : Side} (h : ¬ order.meetsTrade event tradePriceUnits aggressorSide) :
    Executions.matchOrder config event tradePriceUnits aggressorSide pass order =
      (pass, order) := by
  unfold Executions.matchOrder
  dsimp only
  rw [if_neg h, ite_self]

theorem not_meetsTrade (h : order.isLive = false ∨ order.request.type = .market)
    {tradePriceUnits : Int64} {aggressorSide : Side} :
    ¬ order.meetsTrade event tradePriceUnits aggressorSide := by
  intro hmeets
  rcases h with h | h
  · rw [hmeets.isLive] at h
    exact absurd h (by decide)
  · exact hmeets.2.2.1 h

theorem activate_marketOutcome (htype : order.request.type = .market)
    (hpending : order.status = .pending) (hdue : order.activeTimeNs ≤ event.receiveTimeNs)
    (hpos : 0 < order.remainingQuantityUnits) :
    MarketOutcome config event books order (Executions.activate config event books order) := by
  have hskip : ¬ (isTerminal order.status = true ∨ event.receiveTimeNs < order.activeTimeNs) := by
    rw [not_or, Int64.not_lt]
    exact ⟨by simp [isTerminal, hpending], hdue⟩
  unfold Executions.activate
  dsimp only
  rw [if_neg hskip, if_pos htype]
  cases hslip : slippedPrice (event.touch order.request.side) order.request.side
      config.marketSlippagePpm with
  | none => exact .rejected _ (iff_of_true rfl hslip)
  | some price =>
    have hquantity : min order.remainingQuantityUnits order.remainingQuantityUnits =
        order.remainingQuantityUnits := int64_min_eq_right (Int64.le_refl _)
    unfold Executions.fill
    dsimp only
    rw [hquantity, if_neg (Int64.not_le.mpr hpos)]
    cases hfee : Executions.fillFee config price order.remainingQuantityUnits false with
    | none => exact .rejected _ (iff_of_false (by decide) (by simp [hslip]))
    | some fee =>
      rcases hbook : books.ledger.applyFill (signedQuantity order.request.side
        order.remainingQuantityUnits) price fee with ⟨ledger, mutation⟩
      simp only [hbook]
      cases hm : mutation.succeeded with
      | true =>
        rw [if_pos rfl]
        exact .filled price fee ledger mutation hslip hfee hbook hm
      | false =>
        rw [applyFill_of_not_succeeded hbook hm, if_neg (by decide)]
        refine .rejected _ (iff_of_false ?_ (by simp [hslip]))
        cases mutation.error <;> decide

theorem MarketOutcome.order_eq {cell : Executions × PaperOrder}
    (h : MarketOutcome config event books order cell) : cell.2.request = order.request ∧
      (cell.2.status = .rejected ∨ cell.2.status = .filled) := by
  cases h with
  | rejected reason => exact ⟨rfl, .inl rfl⟩
  | filled => exact ⟨rfl, .inr (by simp [PaperOrder.take])⟩

theorem MarketOutcome.sound {cell : Executions × PaperOrder}
    (h : MarketOutcome config event books order cell)
    (hsound : PerpetualLedger.Sound config.ledger books.ledger) :
    PerpetualLedger.Sound config.ledger cell.1.ledger := by
  cases h with
  | rejected reason => exact hsound
  | filled price fee ledger mutation _ _ hbook _ =>
    have hnext := hsound.applyFill (signedQuantity order.request.side
      order.remainingQuantityUnits) price fee
    rwa [hbook] at hnext

theorem MarketOutcome.cases {cell : Executions × PaperOrder}
    (h : MarketOutcome config event books order cell)
    (hsound : PerpetualLedger.Sound config.ledger books.ledger)
    (hpos : 0 < order.remainingQuantityUnits) :
    cell.2.status = .rejected ∧ cell.1 = books ∨
      cell.2.status = .filled ∧ cell.1.ledger.state.positionUnits.toInt =
        books.ledger.state.positionUnits.toInt +
          order.request.side.sign * order.remainingQuantityUnits.toInt := by
  cases h with
  | rejected reason => exact .inl ⟨rfl, rfl⟩
  | filled price fee ledger mutation _ _ hbook hm =>
    refine .inr ⟨?_, ?_⟩
    · simp [PaperOrder.take]
    · rw [← toInt_signedQuantity ((int64_pos_iff _).mp hpos)]
      exact (hsound.applyFill_books hbook hm).1

end Orders

namespace PaperExchange

/-- No order is left that an event could move. -/
def Settled (orders : List PaperOrder) : Prop := ∀ order ∈ orders, order.isLive = false

section Events
variable {exchange : PaperExchange} {event : MarketEvent} {pre : List PaperOrder}
  {order : PaperOrder}

theorem ne_cancelPending_of_settled (h : order.isLive = false) : order.status ≠ .cancelPending :=
  fun hstatus => absurd (isLive_of_waiting (.inr hstatus)) (by simp [h])

theorem matchTrade_of_idle
    (h : ∀ order ∈ exchange.orders, order.isLive = false ∨ order.request.type = .market) :
    exchange.matchTrade event = exchange := by
  unfold matchTrade
  split
  · split_ifs
    · rfl
    · rw [sweep_of_fixed _ fun order horder =>
        matchOrder_of_not_meets (not_meetsTrade (h order horder))]
  · rfl

theorem applyDueCancels_of_ne (h : ∀ order ∈ exchange.orders, order.status ≠ .cancelPending) :
    exchange.applyDueCancels event = exchange := by
  unfold applyDueCancels
  rw [List.map_congr_left fun order horder => applyDueCancel_of_ne (h order horder), List.map_id']

theorem onMarketEvent_of_settled (hsettled : Settled exchange.orders)
    (haccepts : exchange.accepts event) :
    (exchange.onMarketEvent event).1 =
      { exchange with market := some event }.markToMarket (midpoint event) := by
  have hactivate : { exchange with market := some event }.activateOrders event =
      { exchange with market := some event } := by
    unfold activateOrders
    rw [sweep_of_fixed _ fun order horder => activateDue_of_settled (hsettled order horder)]
  have hmatch := @matchTrade_of_idle { exchange with market := some event } event
    fun order horder => .inl (hsettled order horder)
  have hcancel := @applyDueCancels_of_ne { exchange with market := some event } event
    fun order horder => ne_cancelPending_of_settled (hsettled order horder)
  unfold onMarketEvent
  dsimp only
  rw [if_pos haccepts, hactivate, hmatch, hcancel]

theorem onMarketEvent_of_waiting (horders : exchange.orders = pre ++ [order])
    (hsettled : Settled pre) (htype : order.request.type = .market)
    (hpending : order.status = .pending) (hpos : 0 < order.remainingQuantityUnits)
    (haccepts : exchange.accepts event) {cell : Executions × PaperOrder}
    (hcell : Executions.activateDue exchange.config event exchange.toExecutions order = cell) :
    (exchange.onMarketEvent event).1 =
      { exchange with
          market := some event
          toExecutions := cell.1
          orders := pre ++ [cell.2] }.markToMarket (midpoint event) := by
  have hactivate : { exchange with market := some event }.activateOrders event =
      { exchange with
          market := some event
          toExecutions := cell.1
          orders := pre ++ [cell.2] } := by
    unfold activateOrders
    rw [horders, sweep_append,
      sweep_of_fixed _ fun order horder => activateDue_of_settled (hsettled order horder)]
    simp [sweep_cons, hcell]
  -- the order is still a market order, and nobody asked to cancel it
  have hmoved : cell.2.request.type = .market ∧ cell.2.status ≠ .cancelPending := by
    rw [← hcell, Executions.activateDue]
    split_ifs with hdue
    · obtain ⟨hrequest, hstatus⟩ := (@activate_marketOutcome exchange.config event
        exchange.toExecutions order htype hpending hdue.2 hpos).order_eq
      refine ⟨hrequest ▸ htype, ?_⟩
      rcases hstatus with h | h <;> rw [h] <;> decide
    · exact ⟨htype, by simp [hpending]⟩
  have hmatch := @matchTrade_of_idle
    { exchange with market := some event, toExecutions := cell.1, orders := pre ++ [cell.2] } event
    (List.forall_mem_append.mpr ⟨fun other hother => .inl (hsettled other hother),
      List.forall_mem_singleton.mpr (.inr hmoved.1)⟩)
  have hcancel := @applyDueCancels_of_ne
    { exchange with market := some event, toExecutions := cell.1, orders := pre ++ [cell.2] } event
    (List.forall_mem_append.mpr
      ⟨fun other hother => ne_cancelPending_of_settled (hsettled other hother),
        List.forall_mem_singleton.mpr hmoved.2⟩)
  unfold onMarketEvent
  dsimp only
  rw [if_pos haccepts, hactivate, hmatch, hcancel]

theorem call_of_ignored (h : ¬ exchange.accepts event) :
    exchange.call (.onMarketEvent event) =
      { exchange with ignoredMarketEvents := exchange.ignoredMarketEvents + 1 } := by
  simp only [call, onMarketEvent, if_neg h]

theorem settled_heard {config : PaperExchangeConfig} (h : Consistent config exchange)
    (hsettled : Settled exchange.orders) :
    (exchange.call (.onMarketEvent event)).orders = exchange.orders ∧
      (exchange.call (.onMarketEvent event)).ledger.state.positionUnits =
        exchange.ledger.state.positionUnits := by
  by_cases haccepts : exchange.accepts event
  · rw [call, onMarketEvent_of_settled hsettled haccepts]
    exact ⟨rfl, (h.booked.sound.markToMarket_books _).1⟩
  · rw [call_of_ignored haccepts]
    exact ⟨rfl, rfl⟩

theorem settled_fills (hsettled : Settled exchange.orders) :
    (exchange.call (.onMarketEvent event)).fills = exchange.fills := by
  by_cases haccepts : exchange.accepts event
  · rw [call, onMarketEvent_of_settled hsettled haccepts]
    rfl
  · rw [call_of_ignored haccepts]

end Events

section Submissions
variable {config : PaperExchangeConfig} {exchange : PaperExchange} {request : OrderRequest}

theorem normalized_of_step_one (h : config.quantityStepUnits = 1) (request : OrderRequest) :
    normalized config request = request := by
  unfold normalized
  rw [h, Int64.div_one, Int64.mul_one]

theorem place_of_step_one (h : exchange.config.quantityStepUnits = 1) (request : OrderRequest)
    (decisionTimeNs : Int64) : (exchange.place request decisionTimeNs).request = request ∧
      (exchange.place request decisionTimeNs).remainingQuantityUnits = request.quantityUnits := by
  have hone : normalized exchange.config request = request := normalized_of_step_one h request
  exact ⟨hone, congrArg OrderRequest.quantityUnits hone⟩

theorem submit_atOnce {market : MarketEvent} {decisionTimeNs : Int64}
    (h : exchange.Admitted request market decisionTimeNs)
    (hlatency : exchange.config.acknowledgementLatencyNs = 0) (htype : request.type = .market)
    (hdue : decisionTimeNs ≤ market.receiveTimeNs) :
    ∃ cell, MarketOutcome exchange.config market exchange.toExecutions
        (exchange.place request decisionTimeNs) cell ∧
      (exchange.submit request decisionTimeNs).1 =
        { exchange.append (exchange.place request decisionTimeNs) with
          toExecutions := cell.1
          orders := exchange.orders ++ [cell.2] } := by
  have hpassed := (passes_of_refusal_eq_none h.passes).quantity
  have houtcome := @activate_marketOutcome exchange.config market exchange.toExecutions
    (exchange.place request decisionTimeNs) htype rfl
    (by rw [place, hlatency, Int64.add_zero]; exact hdue) hpassed
  refine ⟨_, houtcome, ?_⟩
  rw [h.submit_eq, store_eq, if_pos hlatency]
  unfold store
  rw [if_pos hlatency]

end Submissions
end PaperExchange

theorem toString_injective {a b : ℕ} (h : toString a = toString b) : a = b := by
  have hdigits := congrArg String.toList h
  have hvalue := congrArg (fun digits => Nat.ofDigitChars 10 digits 0) hdigits
  simpa using hvalue

theorem distance_reaches {position goal delta : Int64} (hposition : |position.toInt| < 2 ^ 62)
    (hgoal : |goal.toInt| < 2 ^ 62) (hdelta : delta = goal - position) (hne : delta ≠ 0) :
    0 < (if 0 < delta then delta else -delta) ∧
      position.toInt + (if 0 < delta then Side.buy else .sell).sign *
        (if 0 < delta then delta else -delta).toInt = goal.toInt := by
  rw [abs_lt] at hposition hgoal
  have hexact : delta.toInt = goal.toInt - position.toInt := by
    rw [hdelta, Int64.toInt_sub]
    exact Int.bmod_eq_of_le (m := 2 ^ 64) (by omega) (by omega)
  have hneg : (-delta).toInt = -delta.toInt := by
    rw [Int64.toInt_neg]
    exact Int.bmod_eq_of_le (m := 2 ^ 64) (by omega) (by omega)
  have hzero : delta.toInt ≠ 0 := fun h => hne (Int64.toInt_inj.mp h)
  split_ifs with hpos <;> rw [Int64.lt_iff_toInt_lt, Int64.toInt_zero] at hpos
  · refine ⟨(int64_pos_iff _).mpr hpos, ?_⟩
    rw [Side.sign, hexact]
    omega
  · refine ⟨(int64_pos_iff _).mpr (by omega), ?_⟩
    rw [Side.sign, hneg, hexact]
    omega

end Astra
