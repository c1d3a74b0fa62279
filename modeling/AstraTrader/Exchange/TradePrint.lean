import AstraTrader.Exchange.Matching

/-! One trade print, shared out by `match_trade`: what it puts into queues and fills together is
no more than its quantity, and the orders are served in the order in which they were submitted. -/

namespace Astra
open Process FixedWidth

def quantityOf (fills : List PaperFill) : ℤ := (fills.map fun fill => fill.quantityUnits.toInt).sum

/-- By how much the queue ahead of an order got shorter. -/
def PaperOrder.queueDrop (before after : PaperOrder) : ℤ :=
  before.queueAheadUnits.toInt - after.queueAheadUnits.toInt

def FilledIn (fills : List PaperFill) (order : PaperOrder) : Prop :=
  ∃ fill ∈ fills, fill.orderId = order.orderId

/-- The order takes part in the print of an event. -/
def PaperOrder.Eligible (order : PaperOrder) (event : MarketEvent) : Prop :=
  ∃ tradePriceUnits aggressorSide, event.tradePriceUnits = some tradePriceUnits ∧
    event.aggressorSide = some aggressorSide ∧
    order.meetsTrade event tradePriceUnits aggressorSide

/-- Nothing of the order is left to be filled. -/
def PaperOrder.Exhausted (order : PaperOrder) : Prop :=
  order.remainingQuantityUnits = 0 ∨ order.status = .rejected

section Orders
variable {config : PaperExchangeConfig} {event : MarketEvent} {books : Executions}
  {order : PaperOrder} {available tradePriceUnits : Int64} {aggressorSide : Side}
  {cell : (Executions × Int64) × PaperOrder}

/-- What is left of the print, with what it has filled so far. -/
def printBudget (pass : Executions × Int64) : ℤ := pass.2.toInt + quantityOf pass.1.fills

theorem quantityOf_record (books : Executions) (order : PaperOrder)
    (quantity price fee realized : Int64) (maker : Bool) (event : MarketEvent) :
    quantityOf (books.record order quantity price fee realized maker event).fills =
      quantityOf books.fills + quantity.toInt := by
  simp [quantityOf, Executions.record]

theorem Served.spent (h : Served config event tradePriceUnits aggressorSide books available order
    cell) (hqueue : 0 ≤ order.queueAheadUnits.toInt)
    (hremaining : order.isLive = true → 0 < order.remainingQuantityUnits.toInt) :
    printBudget cell.1 + order.queueDrop cell.2 ≤ printBudget (books, available) := by
  cases h with
  | passedOver => simp [PaperOrder.queueDrop]
  | queued havailable =>
    obtain ⟨hleft, hahead⟩ := toInt_behindQueue hqueue havailable
    simp only [printBudget, PaperOrder.queueDrop]
    omega
  | refused quantity reason havailable hmeets hbehind hquantity =>
    obtain ⟨hleft, hahead⟩ := toInt_behindQueue_of_pos hqueue havailable hbehind
    obtain ⟨_, hpos, hrest⟩ := toInt_leftover hremaining hmeets.isLive hbehind hquantity
    have hsame : ((order.advance available).reject reason).queueAheadUnits.toInt = 0 := hahead
    simp only [printBudget, PaperOrder.queueDrop]
    omega
  | filled quantity fee ledger mutation havailable hmeets hbehind hquantity =>
    obtain ⟨hleft, hahead⟩ := toInt_behindQueue_of_pos hqueue havailable hbehind
    obtain ⟨_, hpos, hrest⟩ := toInt_leftover hremaining hmeets.isLive hbehind hquantity
    have hsame : ((order.advance available).take quantity).queueAheadUnits.toInt = 0 := hahead
    simp only [printBudget, PaperOrder.queueDrop, quantityOf_record]
    omega

theorem Served.available_bounds (h : Served config event tradePriceUnits aggressorSide books
    available order cell) (hqueue : 0 ≤ order.queueAheadUnits.toInt)
    (hremaining : order.isLive = true → 0 < order.remainingQuantityUnits.toInt)
    (havailable : 0 ≤ available.toInt) :
    0 ≤ cell.1.2.toInt ∧ cell.1.2.toInt ≤ available.toInt := by
  cases h with
  | passedOver => exact ⟨havailable, le_rfl⟩
  | queued hpos =>
    have hleft := (toInt_behindQueue hqueue hpos).1
    have hmin := min_le_right order.queueAheadUnits.toInt available.toInt
    have hnonneg := le_min hqueue havailable
    simp only
    omega
  | refused quantity reason hpos hmeets hbehind hquantity =>
    have hleft := (toInt_behindQueue_of_pos hqueue hpos hbehind).1
    have hrest := toInt_leftover hremaining hmeets.isLive hbehind hquantity
    simp only
    omega
  | filled quantity fee ledger mutation hpos hmeets hbehind hquantity =>
    have hleft := (toInt_behindQueue_of_pos hqueue hpos hbehind).1
    have hrest := toInt_leftover hremaining hmeets.isLive hbehind hquantity
    simp only
    omega

theorem Served.reached (h : Served config event tradePriceUnits aggressorSide books available
    order cell) (hleft : 0 < cell.1.2) : 0 < available := by
  cases h with
  | passedOver => exact hleft
  | queued havailable => exact havailable
  | refused _ _ havailable => exact havailable
  | filled _ _ _ _ havailable => exact havailable

theorem Served.fills (h : Served config event tradePriceUnits aggressorSide books available
    order cell) : cell.1.1.fills = books.fills ∨ 0 < available ∧
      (0 ≤ order.queueAheadUnits.toInt → cell.2.queueAheadUnits.toInt = 0) := by
  cases h with
  | passedOver => exact .inl rfl
  | queued => exact .inl rfl
  | refused => exact .inl rfl
  | filled _ _ _ _ havailable _ hbehind =>
    exact .inr ⟨havailable, fun hqueue => (toInt_behindQueue_of_pos hqueue havailable hbehind).2⟩

theorem Served.exhausted (h : Served config event tradePriceUnits aggressorSide books available
    order cell) (hremaining : order.isLive = true → 0 < order.remainingQuantityUnits.toInt)
    (hmeets : order.meetsTrade event tradePriceUnits aggressorSide) (hleft : 0 < cell.1.2) :
    cell.2.Exhausted := by
  cases h with
  | passedOver hpassed =>
    rcases hpassed with hdone | hmisses
    · exact absurd hleft (Int64.not_lt.mpr hdone)
    · exact absurd hmeets hmisses
  | queued _ _ hbehind => exact absurd hleft (Int64.not_lt.mpr hbehind)
  | refused => exact .inr rfl
  | filled quantity fee ledger mutation _ _ hbehind hquantity =>
    obtain ⟨hq, _, hrest⟩ := toInt_leftover hremaining hmeets.isLive hbehind hquantity
    have hpos : 0 < (order.behindQueue available - quantity).toInt := (int64_pos_iff _).mp hleft
    have hall : quantity = order.remainingQuantityUnits := by
      rw [← Int64.toInt_inj]
      omega
    refine .inl ?_
    show order.remainingQuantityUnits - quantity = 0
    rw [hall, Int64.sub_self]

theorem filter_fills_of_moves {a b : Executions × PaperOrder} {orderId : ℕ}
    (h : Relation.ReflTransGen (Move config event) a b) (hne : a.2.orderId ≠ orderId) :
    b.1.fills.filter (fun fill => fill.orderId = orderId) =
      a.1.fills.filter fun fill => fill.orderId = orderId := by
  induction h with
  | refl => rfl
  | @tail b c hchain hmove ih =>
    have hb : b.2.orderId ≠ orderId := (moves_order_eq hchain).1 ▸ hne
    rw [← ih]
    cases hmove with
    | reject => rfl
    | rest => rfl
    | queue => rfl
    | cancel => rfl
    | execute => simpa [Executions.record, List.filter_append] using hb

end Orders

namespace PaperExchange

/-- The fills that the print of an event adds. -/
def printFills (exchange : PaperExchange) (event : MarketEvent) : List PaperFill :=
  (exchange.matchTrade event).fills.drop exchange.fills.length

/-- What the print of an event takes from the queues ahead of all orders. -/
def queueServed (exchange : PaperExchange) (event : MarketEvent) : ℤ :=
  (List.zipWith PaperOrder.queueDrop exchange.orders (exchange.matchTrade event).orders).sum

/-- The books and what is left of the print as it comes to order `i`. -/
def printAt (exchange : PaperExchange) (event : MarketEvent) (tradePriceUnits : Int64)
    (aggressorSide : Side) (i : ℕ) : Executions × Int64 :=
  sweepAt (Executions.matchOrder exchange.config event tradePriceUnits aggressorSide)
    (exchange.toExecutions, event.tradeQuantityUnits) exchange.orders i

section Print
variable {config : PaperExchangeConfig} {exchange : PaperExchange} {event : MarketEvent}
  {tradePriceUnits : Int64} {aggressorSide : Side} {i j : ℕ} {order : PaperOrder}

theorem matchTrade_fills (hmarket : exchange.market = some event) :
    (exchange.matchTrade event).fills = exchange.fills ++ exchange.printFills event := by
  have hextends := chain_fills_extend
    (@matchTrade_transitions (fun _ => True) (fun _ _ => True) _ _ hmarket)
  exact (List.prefix_iff_eq_append.mp hextends).symm

theorem Consistent.served (h : Consistent config exchange) (hmem : order ∈ exchange.orders)
    (pass : Executions × Int64) :
    Served exchange.config event tradePriceUnits aggressorSide pass.1 pass.2 order
      (Executions.matchOrder exchange.config event tradePriceUnits aggressorSide pass order) :=
  matchOrder_served (h.orders order hmem).live

theorem queueDrop_self (orders : List PaperOrder) :
    (List.zipWith PaperOrder.queueDrop orders orders).sum = 0 := by
  induction orders with
  | nil => rfl
  | cons order orders ih =>
    rw [List.zipWith_cons_cons, List.sum_cons, ih, PaperOrder.queueDrop, sub_self, zero_add]

theorem printAt_bounds (tradePriceUnits : Int64) (aggressorSide : Side)
    (h : Consistent config exchange)
    (hqueues : ∀ order ∈ exchange.orders, 0 ≤ order.queueAheadUnits.toInt)
    (htrade : 0 ≤ event.tradeQuantityUnits.toInt) (i : ℕ) :
    0 ≤ (exchange.printAt event tradePriceUnits aggressorSide i).2.toInt ∧
      (exchange.printAt event tradePriceUnits aggressorSide i).2.toInt ≤
        event.tradeQuantityUnits.toInt := by
  refine sweepAt_invariant (I := fun pass : Executions × Int64 =>
    0 ≤ pass.2.toInt ∧ pass.2.toInt ≤ event.tradeQuantityUnits.toInt)
    (fun pass order horder hpass => ?_) ⟨htrade, le_rfl⟩ i
  obtain ⟨hnonneg, hle⟩ := (h.served horder pass).available_bounds (hqueues order horder)
    (h.orders order horder).live hpass.1
  exact ⟨hnonneg, hle.trans hpass.2⟩

theorem printAt_pos (h : Consistent config exchange) (hij : i ≤ j)
    (hleft : 0 < (exchange.printAt event tradePriceUnits aggressorSide j).2) :
    0 < (exchange.printAt event tradePriceUnits aggressorSide i).2 :=
  sweepAt_anti (f := fun pass : Executions × Int64 => 0 < pass.2) hij
    (fun pass _ horder => (h.served horder pass).reached) hleft

theorem print_total (h : Consistent config exchange) (hmarket : exchange.market = some event)
    (hqueues : ∀ order ∈ exchange.orders, 0 ≤ order.queueAheadUnits.toInt)
    (htrade : 0 ≤ event.tradeQuantityUnits.toInt) :
    quantityOf (exchange.printFills event) + exchange.queueServed event ≤
      event.tradeQuantityUnits.toInt := by
  have hfills : quantityOf (exchange.matchTrade event).fills =
      quantityOf exchange.fills + quantityOf (exchange.printFills event) := by
    rw [matchTrade_fills hmarket, quantityOf, List.map_append, List.sum_append]
    rfl
  rcases matchTrade_cases exchange event with he | ⟨price, side, _, _, _, he⟩
  · rw [queueServed, he, queueDrop_self]
    rw [he] at hfills
    omega
  · have hpaid := @sweep_cost _ _ (Executions.matchOrder exchange.config event price side)
      (exchange.toExecutions, event.tradeQuantityUnits) exchange.orders printBudget
      PaperOrder.queueDrop fun pass order horder =>
        (h.served horder pass).spent (hqueues order horder) (h.orders order horder).live
    have hleft := (printAt_bounds price side h hqueues htrade exchange.orders.length).1
    rw [printAt, sweepAt_length] at hleft
    rw [queueServed, he]
    rw [he] at hfills
    simp only [printBudget] at hpaid hfills ⊢
    omega

theorem matchTrade_getElem? (hprice : event.tradePriceUnits = some tradePriceUnits)
    (hside : event.aggressorSide = some aggressorSide) (hquantity : 0 < event.tradeQuantityUnits)
    (horder : exchange.orders[i]? = some order) :
    (exchange.matchTrade event).orders[i]? = some
      (Executions.matchOrder exchange.config event tradePriceUnits aggressorSide
        (exchange.printAt event tradePriceUnits aggressorSide i) order).2 := by
  unfold matchTrade
  rw [hprice, hside]
  dsimp only
  rw [if_neg (Int64.not_le.mpr hquantity)]
  refine (sweep_getElem? _ _ _ i).trans ?_
  rw [horder]
  rfl

theorem reached_of_filledIn (h : Consistent config exchange)
    (hmarket : exchange.market = some event) (horder : exchange.orders[i]? = some order)
    (hfilled : FilledIn (exchange.printFills event) order) :
    ∃ price side, event.tradePriceUnits = some price ∧ event.aggressorSide = some side ∧
      0 < event.tradeQuantityUnits ∧ 0 < (exchange.printAt event price side i).2 ∧
      (0 ≤ order.queueAheadUnits.toInt → (Executions.matchOrder exchange.config event price side
        (exchange.printAt event price side i) order).2.queueAheadUnits.toInt = 0) := by
  obtain ⟨fill, hfill, hid⟩ := hfilled
  have hnew : (exchange.matchTrade event).fills.filter (fun fill => fill.orderId = order.orderId) ≠
      exchange.fills.filter fun fill => fill.orderId = order.orderId := by
    rw [matchTrade_fills hmarket, List.filter_append, Ne, List.append_right_eq_self,
      List.filter_eq_nil_iff]
    exact fun hnone => hnone fill hfill (decide_eq_true hid)
  rcases matchTrade_cases exchange event with he | ⟨price, side, hprice, hside, hquantity, he⟩
  · rw [he] at hnew
    exact absurd rfl hnew
  refine ⟨price, side, hprice, hside, hquantity, ?_⟩
  have hmem := List.mem_of_getElem? horder
  -- only the cell of the order itself can add to its fills
  have hcell := sweep_measure (s := (exchange.toExecutions, event.tradeQuantityUnits))
    (f := fun pass : Executions × Int64 =>
      pass.1.fills.filter fun fill => fill.orderId = order.orderId) horder
    fun pass k other hother hne => filter_fills_of_moves
      (@matchOrder_moves exchange.config event pass.1 other price pass.2 side hprice hside) (by
        rw [h.indexed.orderId_eq hother, h.indexed.orderId_eq horder]
        omega)
  rcases (h.served hmem (exchange.printAt event price side i)).fills with
    hsame | hreached
  · refine absurd ?_ hnew
    rw [he]
    refine hcell.2.trans (Eq.trans ?_ hcell.1)
    exact congrArg (List.filter _) hsame
  · exact hreached

theorem exhausted_of_passed (h : Consistent config exchange) (hij : i < j)
    (horder : exchange.orders[i]? = some order)
    (hmeets : order.meetsTrade event tradePriceUnits aggressorSide)
    (hleft : 0 < (exchange.printAt event tradePriceUnits aggressorSide j).2) :
    (Executions.matchOrder exchange.config event tradePriceUnits aggressorSide
      (exchange.printAt event tradePriceUnits aggressorSide i) order).2.Exhausted := by
  have hmem := List.mem_of_getElem? horder
  refine (h.served hmem _).exhausted (h.orders order hmem).live hmeets ?_
  have hnext := printAt_pos h hij hleft
  rwa [printAt, sweepAt_succ horder] at hnext

theorem matchTrade_origin {matched : PaperOrder}
    (h : (exchange.matchTrade event).orders[i]? = some matched) :
    ∃ order, exchange.orders[i]? = some order ∧ matched.orderId = order.orderId := by
  rcases matchTrade_cases exchange event with he | ⟨price, side, hprice, hside, _, he⟩
  · rw [he] at h
    exact ⟨matched, h, rfl⟩
  · rw [he, sweep_getElem?] at h
    obtain ⟨order, horder, rfl⟩ := Option.map_eq_some_iff.mp h
    exact ⟨order, horder, (moves_order_eq (matchOrder_moves hprice hside)).1⟩

theorem onMarketEvent_orders (haccepts : exchange.accepts event) :
    (exchange.onMarketEvent event).1.orders =
      ((exchange.opened event).matchTrade event).orders.map (PaperOrder.applyDueCancel event) := by
  rw [onMarketEvent, if_pos haccepts]
  rfl

end Print

theorem exhausted_applyDueCancel {event : MarketEvent} {order : PaperOrder}
    (h : order.Exhausted) : (order.applyDueCancel event).Exhausted := by
  unfold PaperOrder.applyDueCancel
  split
  · split_ifs
    · exact .inl rfl
    · exact h
  · exact h

/-- How the print of an accepted event is shared out. -/
structure PrintShared (exchange : PaperExchange) (event : MarketEvent) : Prop where
  total : quantityOf ((exchange.opened event).printFills event) +
    (exchange.opened event).queueServed event ≤ event.tradeQuantityUnits.toInt
  head : ∀ order ∈ (exchange.onMarketEvent event).1.orders,
    FilledIn ((exchange.opened event).printFills event) order → order.queueAheadUnits = 0
  turn : ∀ (i j : ℕ) (earlier later after : PaperOrder), i < j →
    (exchange.opened event).orders[i]? = some earlier →
    (exchange.opened event).orders[j]? = some later → earlier.Eligible event →
    later.Eligible event → earlier.request.side = later.request.side →
    earlier.limit = later.limit → FilledIn ((exchange.opened event).printFills event) later →
    (exchange.onMarketEvent event).1.orders[i]? = some after → after.Exhausted

section Event
variable {config : PaperExchangeConfig} {exchange : PaperExchange} {event : MarketEvent}

theorem head_of_filledIn (h : Consistent config exchange) (hqueues : QueuesNonneg exchange)
    (hevent : event.Displayed) (haccepts : exchange.accepts event) {order : PaperOrder}
    (hmem : order ∈ (exchange.onMarketEvent event).1.orders)
    (hfilled : FilledIn ((exchange.opened event).printFills event) order) :
    order.queueAheadUnits = 0 := by
  have hopened := h.opened haccepts
  rw [onMarketEvent_orders haccepts] at hmem
  obtain ⟨matched, hmatched, rfl⟩ := List.mem_map.mp hmem
  obtain ⟨i, hi⟩ := List.mem_iff_getElem?.mp hmatched
  obtain ⟨before, hbefore, hid⟩ := matchTrade_origin hi
  have hbeforeFilled : FilledIn ((exchange.opened event).printFills event) before := by
    obtain ⟨fill, hfill, hfillId⟩ := hfilled
    exact ⟨fill, hfill, hfillId.trans ((moves_order_eq (@applyDueCancel_moves config event
      exchange.toExecutions matched)).1.trans hid)⟩
  obtain ⟨price, side, hprice, hside, hquantity, _, hzero⟩ :=
    reached_of_filledIn hopened rfl hbefore hbeforeFilled
  rw [matchTrade_getElem? hprice hside hquantity hbefore] at hi
  rw [queueAhead_applyDueCancel, ← Option.some.inj hi, ← Int64.toInt_inj, Int64.toInt_zero]
  exact hzero (queuesNonneg_opened hqueues hevent before (List.mem_of_getElem? hbefore))

theorem exhausted_of_filledIn (h : Consistent config exchange)
    (haccepts : exchange.accepts event) {i j : ℕ} {earlier later after : PaperOrder} (hij : i < j)
    (hearlier : (exchange.opened event).orders[i]? = some earlier)
    (hlater : (exchange.opened event).orders[j]? = some later)
    (heligible : earlier.Eligible event)
    (hfilled : FilledIn ((exchange.opened event).printFills event) later)
    (hafter : (exchange.onMarketEvent event).1.orders[i]? = some after) : after.Exhausted := by
  have hopened := h.opened haccepts
  obtain ⟨price, side, hprice, hside, hquantity, hleft, _⟩ :=
    reached_of_filledIn hopened rfl hlater hfilled
  obtain ⟨price', side', hprice', hside', hmeets⟩ := heligible
  obtain rfl : price = price' := Option.some.inj (hprice.symm.trans hprice')
  obtain rfl : side = side' := Option.some.inj (hside.symm.trans hside')
  rw [onMarketEvent_orders haccepts, List.getElem?_map,
    matchTrade_getElem? hprice hside hquantity hearlier] at hafter
  rw [← Option.some.inj hafter]
  exact exhausted_applyDueCancel (exhausted_of_passed hopened hij hearlier hmeets hleft)

end Event

theorem run_printShared (config : PaperExchangeConfig) (calls : List ExchangeCall)
    (hcalls : ∀ c ∈ calls, c.Displayed) (event : MarketEvent) (hevent : event.Displayed)
    (haccepts : (run config calls).accepts event) : PrintShared (run config calls) event := by
  have hvalid := validConfig_of_run haccepts.1
  have hs := consistent_run hvalid calls
  have hqueues := queuesNonneg_run hvalid hcalls
  refine ⟨?_, ?_, ?_⟩
  · exact print_total (hs.opened haccepts) rfl (queuesNonneg_opened hqueues hevent) hevent.trade
  · intro order hmem hfilled
    exact head_of_filledIn hs hqueues hevent haccepts hmem hfilled
  · intro i j earlier later after hij hearlier hlater heligible _ _ _ hfilled hafter
    exact exhausted_of_filledIn hs haccepts hij hearlier hlater heligible hfilled hafter

/-- A queue of two, an order for three behind it, and one more order behind that. -/
theorem run_printShared_twoOrders :
    PrintShared (run { ledger := { initialCashUnits := 10000 } }
      [.onMarketEvent { sequence := 1, exchangeTimeNs := 1, receiveTimeNs := 1, bestBidUnits := 99
                        bestAskUnits := 101, bidQuantityUnits := 2 },
       .submit { clientOrderId := "a", type := .limit, quantityUnits := 3
                 limitPriceUnits := some 99 } 1,
       .submit { clientOrderId := "b", type := .postOnly, quantityUnits := 4
                 limitPriceUnits := some 99 } 1])
      { sequence := 2, exchangeTimeNs := 2, receiveTimeNs := 2, bestBidUnits := 99
        bestAskUnits := 101, tradePriceUnits := some 99, tradeQuantityUnits := 8
        aggressorSide := some .sell } :=
  run_printShared _ _ (by decide) _ (by decide) (by decide +kernel)

/-- Trade matching has one priority, that of submission. -/
structure SubmissionPriority (exchange : PaperExchange) (event : MarketEvent) : Prop where
  exhausted : ∀ (i j : ℕ) (earlier later after : PaperOrder), i < j →
    (exchange.opened event).orders[i]? = some earlier →
    (exchange.opened event).orders[j]? = some later → earlier.Eligible event →
    FilledIn ((exchange.opened event).printFills event) later →
    (exchange.onMarketEvent event).1.orders[i]? = some after → after.Exhausted
  unaffected : ∀ k, ({ exchange.opened event with
      orders := (exchange.opened event).orders.take k }.matchTrade event).orders =
    ((exchange.opened event).matchTrade event).orders.take k

theorem matchTrade_take (exchange : PaperExchange) (event : MarketEvent) (k : ℕ) :
    ({ exchange with orders := exchange.orders.take k }.matchTrade event).orders =
      (exchange.matchTrade event).orders.take k := by
  unfold matchTrade
  split
  · split_ifs
    · rfl
    · exact sweep_take _ _ _ k
  · rfl

theorem run_submissionPriority (config : PaperExchangeConfig) (calls : List ExchangeCall)
    (event : MarketEvent) (haccepts : (run config calls).accepts event) :
    SubmissionPriority (run config calls) event := by
  have hs := consistent_run (validConfig_of_run haccepts.1) calls
  refine ⟨?_, matchTrade_take _ event⟩
  intro i j earlier later after hij hearlier hlater heligible hfilled hafter
  exact exhausted_of_filledIn hs haccepts hij hearlier hlater heligible hfilled hafter

theorem run_submissionPriority_betterFirst :
    SubmissionPriority (run { ledger := { initialCashUnits := 10000 } }
      [.onMarketEvent { sequence := 1, exchangeTimeNs := 1, receiveTimeNs := 1, bestBidUnits := 99
                        bestAskUnits := 101 },
       .submit { clientOrderId := "a", type := .limit, quantityUnits := 3
                 limitPriceUnits := some 98 } 1,
       .submit { clientOrderId := "b", type := .limit, quantityUnits := 3
                 limitPriceUnits := some 97 } 1])
      { sequence := 2, exchangeTimeNs := 2, receiveTimeNs := 2, bestBidUnits := 99
        bestAskUnits := 101, tradePriceUnits := some 97, tradeQuantityUnits := 5
        aggressorSide := some .sell } :=
  run_submissionPriority _ _ _ (by decide +kernel)

/-- A print at 97 goes to the order at 97 that was submitted first; the order at 98 that was
submitted after it gets nothing. -/
theorem not_forall_pricePriority : ¬ ∀ (config : PaperExchangeConfig) (calls : List ExchangeCall)
    (event : MarketEvent), (run config calls).accepts event →
    ∀ (i j : ℕ) (better worse after : PaperOrder), i ≠ j →
      (run config calls).orders[i]? = some better → (run config calls).orders[j]? = some worse →
      better.request.side = .buy → worse.request.side = .buy → worse.limit < better.limit →
      better.queueAheadUnits = 0 → better.Eligible event →
      FilledIn (((run config calls).opened event).printFills event) worse →
      ((run config calls).onMarketEvent event).1.orders[i]? = some after → after.Exhausted := by
  intro h
  have hexhausted := h { ledger := { initialCashUnits := 10000 } }
    [.onMarketEvent { sequence := 1, exchangeTimeNs := 1, receiveTimeNs := 1, bestBidUnits := 99
                      bestAskUnits := 101 },
     .submit { clientOrderId := "a", type := .limit, quantityUnits := 3
               limitPriceUnits := some 97 } 1,
     .submit { clientOrderId := "b", type := .limit, quantityUnits := 3
               limitPriceUnits := some 98 } 1]
    { sequence := 2, exchangeTimeNs := 2, receiveTimeNs := 2, bestBidUnits := 99
      bestAskUnits := 101, tradePriceUnits := some 97, tradeQuantityUnits := 3
      aggressorSide := some .sell } (by decide +kernel) 1 0
    { orderId := 2
      request := { clientOrderId := "b", type := .limit, quantityUnits := 3
                   limitPriceUnits := some 98 }
      status := .open, remainingQuantityUnits := 3, activeTimeNs := 1 }
    { orderId := 1
      request := { clientOrderId := "a", type := .limit, quantityUnits := 3
                   limitPriceUnits := some 97 }
      status := .open, remainingQuantityUnits := 3, activeTimeNs := 1 }
    { orderId := 2
      request := { clientOrderId := "b", type := .limit, quantityUnits := 3
                   limitPriceUnits := some 98 }
      status := .open, remainingQuantityUnits := 3, activeTimeNs := 1 }
    (by decide) (by decide +kernel) (by decide +kernel) rfl rfl (by decide) rfl
    ⟨97, .sell, rfl, rfl, by decide⟩
    ⟨{ fillId := 1, orderId := 1, clientOrderId := "a", marketSequence := 2, exchangeTimeNs := 2
       quantityUnits := 3, priceUnits := 97, maker := true }, by decide +kernel, rfl⟩
    (by decide +kernel)
  exact absurd hexhausted (by unfold PaperOrder.Exhausted; decide)

end PaperExchange
end Astra
