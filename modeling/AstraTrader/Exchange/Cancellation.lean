import AstraTrader.Exchange.History

/-! When an accepted cancel takes effect. The request lives in the status of its order, and a
maker fill that leaves a remainder overwrites it; every other path keeps it until it is due. -/

namespace Astra
open Process FixedWidth

/-- The cancel due at `due` is still on record, or there is nothing left to cancel. -/
def PaperOrder.Condemned (due : Int64) (order : PaperOrder) : Prop :=
  (order.status = .cancelPending ∧ order.cancelDueTimeNs = some due) ∨ order.isLive = false

/-- What a trade has left for an order, once the queue ahead of it is served. -/
def PaperOrder.behindQueue (order : PaperOrder) (available : Int64) : Int64 :=
  available - min order.queueAheadUnits available

def PaperOrder.advance (order : PaperOrder) (available : Int64) : PaperOrder :=
  { order with queueAheadUnits := order.queueAheadUnits - min order.queueAheadUnits available }

/-- The trade reaches the order with `available` left, and gives it a part of what remains. -/
structure PartialFill (config : PaperExchangeConfig) (event : MarketEvent)
    (tradePriceUnits : Int64) (aggressorSide : Side) (pass : Executions × Int64)
    (order : PaperOrder) : Prop where
  reached : 0 < pass.2
  meets : order.meetsTrade event tradePriceUnits aggressorSide
  pending : order.status = .cancelPending
  part : 0 < order.behindQueue pass.2
  notAll : order.behindQueue pass.2 < order.remainingQuantityUnits
  booked : ∃ fee, Executions.fillFee config order.limit (order.behindQueue pass.2) true = some fee ∧
    (pass.1.ledger.applyFill (signedQuantity order.request.side (order.behindQueue pass.2))
      order.limit fee).2.succeeded = true

section Orders
variable {config : PaperExchangeConfig} {event : MarketEvent} {books : Executions}
  {order : PaperOrder} {due : Int64}

theorem condemned_fill_all (h : order.Condemned due) {quantityUnits price : Int64} {maker : Bool}
    (hall : min quantityUnits order.remainingQuantityUnits = order.remainingQuantityUnits) :
    (Executions.fill config books order quantityUnits price maker event).2.Condemned due := by
  rcases fill_cases config books order price maker event hall with
    ⟨_, he⟩ | ⟨reason, he⟩ | ⟨fee, ledger, mutation, _, _, _, _, he⟩ <;> rw [he]
  · exact h
  · exact .inr (isLive_reject order reason)
  · exact .inr (isLive_take_all order)

theorem condemned_activateDue (h : order.Condemned due) :
    (Executions.activateDue config event books order).2.Condemned due := by
  unfold Executions.activateDue
  split_ifs with hdue
  · have hpending : order.status = .cancelPending ∧ order.cancelDueTimeNs = some due := by
      refine h.resolve_right fun hdead => ?_
      rw [isLive_of_waiting hdue.1] at hdead
      exact absurd hdead (by decide)
    unfold Executions.activate
    dsimp only
    split_ifs
    · exact h
    · split
      · exact .inr (isLive_reject _ _)
      · exact condemned_fill_all h (int64_min_eq_right (Int64.le_refl _))
    · exact .inr (isLive_reject _ _)
    · exact condemned_fill_all h (int64_min_eq_right (Int64.le_refl _))
    · exact .inl ⟨if_pos hpending.1, hpending.2⟩
  · exact h

theorem matchOrder_eq (config : PaperExchangeConfig) (event : MarketEvent)
    (tradePriceUnits : Int64) (aggressorSide : Side) (pass : Executions × Int64)
    (order : PaperOrder) :
    Executions.matchOrder config event tradePriceUnits aggressorSide pass order =
      if pass.2 ≤ 0 then (pass, order)
      else if order.meetsTrade event tradePriceUnits aggressorSide then
        if order.behindQueue pass.2 ≤ 0 then
          ((pass.1, order.behindQueue pass.2), order.advance pass.2)
        else
          let quantity := min order.remainingQuantityUnits (order.behindQueue pass.2)
          let cell := Executions.fill config pass.1 (order.advance pass.2) quantity order.limit true
            event
          ((cell.1, order.behindQueue pass.2 - quantity), cell.2)
      else (pass, order) := rfl

theorem condemned_matchOrder {tradePriceUnits : Int64} {aggressorSide : Side}
    {pass : Executions × Int64} (h : order.Condemned due)
    (hpart : ¬ PartialFill config event tradePriceUnits aggressorSide pass order) :
    (Executions.matchOrder config event tradePriceUnits aggressorSide pass order).2.Condemned
      due := by
  have hadvanced : (order.advance pass.2).Condemned due := h
  rw [matchOrder_eq]
  split_ifs with hdone hmeets hahead
  · exact h
  · exact hadvanced
  -- a trade that covers the remainder leaves nothing to cancel
  · by_cases hall : order.remainingQuantityUnits ≤ order.behindQueue pass.2
    · refine condemned_fill_all hadvanced ?_
      rw [int64_min_eq_left hall]
      exact int64_min_eq_left (Int64.le_refl _)
    · have hless := Int64.not_le.mp hall
      have hquantity : min (min order.remainingQuantityUnits (order.behindQueue pass.2))
          (order.advance pass.2).remainingQuantityUnits = order.behindQueue pass.2 := by
        rw [int64_min_eq_right (Int64.le_of_lt hless)]
        exact int64_min_eq_left (Int64.le_of_lt hless)
      have hpending : order.status = .cancelPending := by
        refine (h.resolve_right fun hdead => ?_).1
        rw [hmeets.isLive] at hdead
        exact absurd hdead (by decide)
      dsimp only
      rcases fill_cases config pass.1 (order.advance pass.2) order.limit true event hquantity with
        ⟨hq, _⟩ | ⟨reason, he⟩ | ⟨fee, ledger, mutation, _, hfee, hbook, hm, _⟩
      · exact absurd hq hahead
      · rw [he]
        exact .inr (isLive_reject _ reason)
      · refine absurd ?_ hpart
        exact ⟨Int64.not_le.mp hdone, hmeets, hpending, Int64.not_le.mp hahead, hless, fee, hfee,
          (congrArg (·.2.succeeded) hbook).trans hm⟩
  · exact h

theorem condemned_applyDueCancel (h : order.Condemned due) :
    (order.applyDueCancel event).Condemned due := by
  unfold PaperOrder.applyDueCancel
  split
  · split_ifs
    · exact .inr rfl
    · exact h
  · exact h

theorem isLive_applyDueCancel (h : order.Condemned due) (hdue : due ≤ event.receiveTimeNs) :
    (order.applyDueCancel event).isLive = false := by
  unfold PaperOrder.applyDueCancel
  rcases h with ⟨hstatus, hcancel⟩ | hdead
  · simp only [hcancel, hstatus, hdue, and_self, if_true]
    rfl
  · split
    · split_ifs
      · rfl
      · exact hdead
    · exact hdead

end Orders

namespace PaperExchange

def CondemnedAt (i : ℕ) (due : Int64) (exchange : PaperExchange) : Prop :=
  ∃ order, exchange.orders[i]? = some order ∧ order.Condemned due

/-- Trade matching on `event`, after its activations, gives part of its remainder to order `i`
while the order has a cancel pending. -/
def PartiallyFills (exchange : PaperExchange) (i : ℕ) (event : MarketEvent) : Prop :=
  let active := { exchange with market := some event }.activateOrders event
  ∃ tradePriceUnits aggressorSide order, event.tradePriceUnits = some tradePriceUnits ∧
    event.aggressorSide = some aggressorSide ∧ active.orders[i]? = some order ∧
    PartialFill exchange.config event tradePriceUnits aggressorSide
      (sweepAt (Executions.matchOrder exchange.config event tradePriceUnits aggressorSide)
        (active.toExecutions, event.tradeQuantityUnits) active.orders i) order

/-- A call that does not take the one branch on which a cancel is lost. -/
def Spares (i : ℕ) (exchange : PaperExchange) : ExchangeCall → Prop
  | .onMarketEvent event => exchange.accepts event → ¬ exchange.PartiallyFills i event
  | _ => True

section Calls
variable {i : ℕ} {due : Int64} {exchange : PaperExchange} {event : MarketEvent}

theorem activateOrders_getElem? {order : PaperOrder} (horder : exchange.orders[i]? = some order) :
    (exchange.activateOrders event).orders[i]? = some
      (Executions.activateDue exchange.config event
        (sweepAt (Executions.activateDue exchange.config event) exchange.toExecutions
          exchange.orders i) order).2 := by
  refine (sweep_getElem? _ _ _ i).trans ?_
  rw [horder]
  rfl

theorem applyDueCancels_getElem? {order : PaperOrder} (horder : exchange.orders[i]? = some order) :
    (exchange.applyDueCancels event).orders[i]? = some (order.applyDueCancel event) := by
  rw [PaperExchange.applyDueCancels, List.getElem?_map, horder]
  rfl

theorem CondemnedAt.activateOrders (h : CondemnedAt i due exchange) :
    CondemnedAt i due (exchange.activateOrders event) := by
  obtain ⟨order, horder, hcondemned⟩ := h
  exact ⟨_, activateOrders_getElem? horder, condemned_activateDue hcondemned⟩

theorem CondemnedAt.matchTrade (h : CondemnedAt i due exchange)
    (hspared : ∀ tradePriceUnits aggressorSide order,
      event.tradePriceUnits = some tradePriceUnits → event.aggressorSide = some aggressorSide →
      exchange.orders[i]? = some order →
      ¬ PartialFill exchange.config event tradePriceUnits aggressorSide
        (sweepAt (Executions.matchOrder exchange.config event tradePriceUnits aggressorSide)
          (exchange.toExecutions, event.tradeQuantityUnits) exchange.orders i) order) :
    CondemnedAt i due (exchange.matchTrade event) := by
  unfold PaperExchange.matchTrade
  split
  · rename_i tradePriceUnits aggressorSide hprice hside
    split_ifs
    · exact h
    · obtain ⟨order, horder, hcondemned⟩ := h
      have hmatched := condemned_matchOrder hcondemned (hspared _ _ _ hprice hside horder)
      refine ⟨_, (sweep_getElem? _ _ _ i).trans ?_, hmatched⟩
      rw [horder]
      rfl
  · exact h

theorem CondemnedAt.applyDueCancels (h : CondemnedAt i due exchange) :
    CondemnedAt i due (exchange.applyDueCancels event) := by
  obtain ⟨order, horder, hcondemned⟩ := h
  exact ⟨_, applyDueCancels_getElem? horder, condemned_applyDueCancel hcondemned⟩

theorem CondemnedAt.matched (h : CondemnedAt i due exchange)
    (hspared : ¬ exchange.PartiallyFills i event) :
    CondemnedAt i due
      (({ exchange with market := some event }.activateOrders event).matchTrade event) := by
  have hobserved : CondemnedAt i due { exchange with market := some event } := h
  refine hobserved.activateOrders.matchTrade fun tradePriceUnits aggressorSide order hprice hside
    horder hpart => ?_
  exact hspared ⟨tradePriceUnits, aggressorSide, order, hprice, hside, horder, hpart⟩

theorem submit_getElem? (exchange : PaperExchange) (request : OrderRequest)
    (decisionTimeNs : Int64) (hi : i < exchange.orders.length) :
    (exchange.submit request decisionTimeNs).1.orders[i]? = exchange.orders[i]? := by
  rcases submit_cases exchange request decisionTimeNs with he | ⟨market, _, he⟩
  · rw [he]
  · rw [he, store_eq]
    exact List.getElem?_append_left hi

theorem CondemnedAt.call (h : CondemnedAt i due exchange) {c : ExchangeCall}
    (hspared : Spares i exchange c) : CondemnedAt i due (exchange.call c) := by
  cases c with
  | onMarketEvent event =>
    rw [PaperExchange.call, onMarketEvent]
    split_ifs with haccepts
    · exact (h.matched (hspared haccepts)).applyDueCancels
    · exact h
  | submit request decisionTimeNs =>
    obtain ⟨order, horder, hcondemned⟩ := h
    refine ⟨order, ?_, hcondemned⟩
    rw [PaperExchange.call, submit_getElem? _ _ _ (List.getElem?_eq_some_iff.mp horder).1]
    exact horder
  | cancel clientOrderId requestTimeNs =>
    rw [PaperExchange.call]
    rcases cancel_cases exchange clientOrderId requestTimeNs with
      he | ⟨pre, live, post, hsplit, _, hlive, hpending, he⟩ <;> rw [he]
    · exact h
    · obtain ⟨order, horder, hcondemned⟩ := h
      refine ⟨order, ?_, hcondemned⟩
      -- a second cancel is only accepted for another order
      have hother : i ≠ pre.length := by
        rintro rfl
        rw [hsplit, getElem?_cell] at horder
        obtain rfl := Option.some.inj horder
        rcases hcondemned with hstatus | hdead
        · exact hpending hstatus.1
        · rw [hlive] at hdead
          exact absurd hdead (by decide)
      rw [hsplit] at horder
      exact (getElem?_replace hother).trans horder

theorem CondemnedAt.isLive_of_due (h : CondemnedAt i due exchange)
    (haccepts : exchange.accepts event) (hspared : ¬ exchange.PartiallyFills i event)
    (hdue : due ≤ event.receiveTimeNs) :
    ∃ order, (exchange.call (.onMarketEvent event)).orders[i]? = some order ∧
      order.isLive = false := by
  obtain ⟨order, horder, hcondemned⟩ := h.matched hspared
  refine ⟨order.applyDueCancel event, ?_, isLive_applyDueCancel hcondemned hdue⟩
  rw [PaperExchange.call, onMarketEvent, if_pos haccepts]
  exact applyDueCancels_getElem? horder

theorem condemnedAt_cancel {clientOrderId : String} {requestTimeNs : Int64} {order : PaperOrder}
    (hcancel : (exchange.cancel clientOrderId requestTimeNs).2 = true)
    (hfind : exchange.findOrder clientOrderId = some (i, order)) :
    CondemnedAt i (requestTimeNs + exchange.config.cancellationLatencyNs)
      (exchange.cancel clientOrderId requestTimeNs).1 := by
  rcases cancel_cases exchange clientOrderId requestTimeNs with
    he | ⟨pre, live, post, hsplit, hlookup, hlive, hpending, he⟩
  · rw [he] at hcancel
    exact absurd hcancel Bool.false_ne_true
  · obtain ⟨rfl, rfl⟩ := Prod.mk.inj (Option.some.inj (hfind.symm.trans hlookup))
    rw [he]
    exact ⟨_, getElem?_cell _ _ _, .inl ⟨rfl, rfl⟩⟩

end Calls

theorem filter_fills_of_frozen {config : PaperExchangeConfig} {s t : PaperExchange} {i : ℕ}
    {order : PaperOrder} (hs : Consistent config s) (ht : Consistent config t)
    (hextends : s.fills <+: t.fills) (hbefore : s.orders[i]? = some order)
    (hafter : t.orders[i]? = some order) :
    t.fills.filter (fun fill => fill.orderId = order.orderId) =
      s.fills.filter fun fill => fill.orderId = order.orderId := by
  obtain ⟨fresh, hfresh⟩ := hextends
  have hold := hs.orders order (List.mem_of_getElem? hbefore)
  have hnew := ht.orders order (List.mem_of_getElem? hafter)
  have hzero : filledOf fresh order.orderId = 0 := by
    have hsame := hold.filled.symm.trans hnew.filled
    rw [← hfresh, filledOf_append_list] at hsame
    omega
  have hpos : ∀ fill ∈ fresh, 0 < fill.quantityUnits.toInt := by
    intro fill hfill
    obtain ⟨_, _, hnames⟩ := ht.linked fill (by simp [← hfresh, hfill])
    exact hnames.2.2.2
  have hnone : fresh.filter (fun fill => fill.orderId = order.orderId) = [] := by
    refine List.filter_eq_nil_iff.mpr fun fill hfill hid => ?_
    -- a fill of this order would count in the sum
    have hle := List.single_le_sum (l := (fresh.filter fun fill =>
      fill.orderId = order.orderId).map fun fill => fill.quantityUnits.toInt) (fun x hx => by
        obtain ⟨other, hother, rfl⟩ := List.mem_map.mp hx
        exact (hpos other (List.mem_of_mem_filter hother)).le) _
      (List.mem_map_of_mem (List.mem_filter.mpr ⟨hfill, hid⟩))
    have hfillPos := hpos fill hfill
    rw [filledOf] at hzero
    omega
  rw [← hfresh, List.filter_append, hnone, List.append_nil]

theorem cancel_takesEffect (config : PaperExchangeConfig) (calls : List ExchangeCall)
    (clientOrderId : String) (requestTimeNs : Int64) (i : ℕ) (requested : PaperOrder)
    (hfind : (run config calls).findOrder clientOrderId = some (i, requested))
    (hcancel : ((run config calls).cancel clientOrderId requestTimeNs).2 = true)
    (hrange : InRange64 (requestTimeNs.toInt + config.cancellationLatencyNs.toInt))
    (between : List ExchangeCall) (event : MarketEvent)
    (haccepts : (run config (calls ++ .cancel clientOrderId requestTimeNs :: between)).accepts
      event)
    (hdue : requestTimeNs.toInt + config.cancellationLatencyNs.toInt ≤ event.receiveTimeNs.toInt)
    (hspared : AllSteps call (Spares i)
      (run config (calls ++ [.cancel clientOrderId requestTimeNs]))
      (between ++ [.onMarketEvent event]))
    (later : List ExchangeCall) :
    let due := run config
      (calls ++ .cancel clientOrderId requestTimeNs :: between ++ [.onMarketEvent event])
    ∃ order, due.orders[i]? = some order ∧ isTerminal order.status = true ∧
      (later.foldl call due).orders[i]? = some order ∧
      (later.foldl call due).fills.filter (fun fill => fill.orderId = order.orderId) =
        due.fills.filter fun fill => fill.orderId = order.orderId := by
  intro due
  have hcondemned := condemnedAt_cancel hcancel hfind
  rw [(configured_run config calls).config_eq] at hcondemned
  rw [run, List.foldl_append] at hspared haccepts
  obtain ⟨hbetween, hlast, _⟩ := AllSteps.append.mp hspared
  have hmid := run_invariant (fun _ _ h hp => h.call hp) hcondemned hbetween
  have hreached : requestTimeNs + config.cancellationLatencyNs ≤ event.receiveTimeNs := by
    rw [Int64.le_iff_toInt_le, int64_toInt_add_of_inRange hrange]
    exact hdue
  -- the due event ends the order, and a terminal order is final
  obtain ⟨order, horder, hdead⟩ := hmid.isLive_of_due haccepts (hlast haccepts) hreached
  have hstate : due = (between.foldl call
      ((run config calls).cancel clientOrderId requestTimeNs).1).call (.onMarketEvent event) := by
    simp [due, run, call]
  rw [← hstate] at horder
  have hvalid := valid_of_getElem? horder
  have hchain := foldl_transitions due later
  have hfinal := chain_terminal hchain horder hdead
  have hlater : later.foldl call due = run config (calls ++
      .cancel clientOrderId requestTimeNs :: between ++ [.onMarketEvent event] ++ later) := by
    rw [run, List.foldl_append]
    rfl
  refine ⟨order, horder, ?_, hfinal, ?_⟩
  · simpa [PaperOrder.isLive] using hdead
  · refine filter_fills_of_frozen (consistent_run hvalid _) ?_ (chain_fills_extend hchain) horder
      hfinal
    rw [hlater]
    exact consistent_run hvalid _

/-- A trade through the limit comes after the cancel is due. -/
theorem cancel_takesEffect_resting :
    let due := run { ledger := { initialCashUnits := 10000 }, cancellationLatencyNs := 10 }
      ([.onMarketEvent { sequence := 1, exchangeTimeNs := 1, receiveTimeNs := 1
                         bestBidUnits := 99, bestAskUnits := 101 },
        .submit { clientOrderId := "a", type := .limit, quantityUnits := 5
                  limitPriceUnits := some 99 } 1] ++
        .cancel "a" 1 ::
        [.onMarketEvent { sequence := 2, exchangeTimeNs := 5, receiveTimeNs := 5
                          bestBidUnits := 98, bestAskUnits := 100 }] ++
        [.onMarketEvent { sequence := 3, exchangeTimeNs := 20, receiveTimeNs := 20
                          bestBidUnits := 99, bestAskUnits := 101 }])
    let traded := due.call (.onMarketEvent
      { sequence := 4, exchangeTimeNs := 30, receiveTimeNs := 30, bestBidUnits := 97
        bestAskUnits := 99, tradePriceUnits := some 98, tradeQuantityUnits := 50
        aggressorSide := some .sell })
    ∃ order, due.orders[0]? = some order ∧ isTerminal order.status = true ∧
      traded.orders[0]? = some order ∧
      (traded.fills.filter fun fill => fill.orderId = order.orderId) =
        due.fills.filter fun fill => fill.orderId = order.orderId :=
  cancel_takesEffect
    { ledger := { initialCashUnits := 10000 }, cancellationLatencyNs := 10 }
    [.onMarketEvent { sequence := 1, exchangeTimeNs := 1, receiveTimeNs := 1
                      bestBidUnits := 99, bestAskUnits := 101 },
     .submit { clientOrderId := "a", type := .limit, quantityUnits := 5
               limitPriceUnits := some 99 } 1]
    "a" 1 0
    { orderId := 1
      request := { clientOrderId := "a", type := .limit, quantityUnits := 5
                   limitPriceUnits := some 99 }
      status := .open, remainingQuantityUnits := 5, activeTimeNs := 1 }
    (by decide +kernel) (by decide +kernel) (by decide +kernel)
    [.onMarketEvent { sequence := 2, exchangeTimeNs := 5, receiveTimeNs := 5
                      bestBidUnits := 98, bestAskUnits := 100 }]
    { sequence := 3, exchangeTimeNs := 20, receiveTimeNs := 20
      bestBidUnits := 99, bestAskUnits := 101 }
    (by decide +kernel) (by decide +kernel)
    (by simp [AllSteps, Spares, PartiallyFills])
    [.onMarketEvent { sequence := 4, exchangeTimeNs := 30, receiveTimeNs := 30, bestBidUnits := 97
                      bestAskUnits := 99, tradePriceUnits := some 98, tradeQuantityUnits := 50
                      aggressorSide := some .sell }]

/-- A partial fill in the race between request and due time makes the exchange forget the cancel:
`apply_due_cancels` skips the order, which goes on resting. -/
theorem not_forall_cancel_takesEffect : ¬ ∀ (config : PaperExchangeConfig)
    (calls : List ExchangeCall) (clientOrderId : String) (requestTimeNs : Int64) (i : ℕ)
    (requested : PaperOrder),
    (run config calls).findOrder clientOrderId = some (i, requested) →
    ((run config calls).cancel clientOrderId requestTimeNs).2 = true →
    InRange64 (requestTimeNs.toInt + config.cancellationLatencyNs.toInt) →
    ∀ (between : List ExchangeCall) (event : MarketEvent),
      (run config (calls ++ .cancel clientOrderId requestTimeNs :: between)).accepts event →
      requestTimeNs.toInt + config.cancellationLatencyNs.toInt ≤ event.receiveTimeNs.toInt →
      ∀ order, (run config (calls ++ .cancel clientOrderId requestTimeNs :: between ++
        [.onMarketEvent event])).orders[i]? = some order → isTerminal order.status = true := by
  intro h
  have hterminal := h { ledger := { initialCashUnits := 10000 }, cancellationLatencyNs := 10 }
    [.onMarketEvent { sequence := 1, exchangeTimeNs := 1, receiveTimeNs := 1
                      bestBidUnits := 99, bestAskUnits := 101 },
     .submit { clientOrderId := "a", type := .limit, quantityUnits := 5
               limitPriceUnits := some 99 } 1]
    "a" 1 0
    { orderId := 1
      request := { clientOrderId := "a", type := .limit, quantityUnits := 5
                   limitPriceUnits := some 99 }
      status := .open, remainingQuantityUnits := 5, activeTimeNs := 1 }
    (by decide +kernel) (by decide +kernel) (by decide +kernel)
    [.onMarketEvent { sequence := 2, exchangeTimeNs := 5, receiveTimeNs := 5
                      bestBidUnits := 99, bestAskUnits := 101, tradePriceUnits := some 99
                      tradeQuantityUnits := 2, aggressorSide := some .sell }]
    { sequence := 3, exchangeTimeNs := 20, receiveTimeNs := 20
      bestBidUnits := 99, bestAskUnits := 101 }
    (by decide +kernel) (by decide +kernel)
    { orderId := 1
      request := { clientOrderId := "a", type := .limit, quantityUnits := 5
                   limitPriceUnits := some 99 }
      status := .partiallyFilled, remainingQuantityUnits := 3, filledQuantityUnits := 2
      activeTimeNs := 1, cancelDueTimeNs := some 11 } (by decide +kernel)
  exact absurd hterminal (by decide)

end PaperExchange
end Astra
