import AstraTrader.Exchange.Cancellation
import AstraTrader.Exchange.MarketOrders

/-! What the two loops of an event do to one order: activation settles it or lets it rest, and
`match_trade` spends the print on the queue ahead of it before it spends any on the order. -/

namespace Astra
open Process FixedWidth

/-- The quantities of an event that `parse_row` does not accept below zero. -/
structure MarketEvent.Displayed (event : MarketEvent) : Prop where
  bid : 0 ≤ event.bidQuantityUnits.toInt
  ask : 0 ≤ event.askQuantityUnits.toInt
  trade : 0 ≤ event.tradeQuantityUnits.toInt

instance (event : MarketEvent) : Decidable event.Displayed :=
  decidable_of_iff (0 ≤ event.bidQuantityUnits.toInt ∧ 0 ≤ event.askQuantityUnits.toInt ∧
    0 ≤ event.tradeQuantityUnits.toInt)
    ⟨fun h => ⟨h.1, h.2.1, h.2.2⟩, fun h => ⟨h.bid, h.ask, h.trade⟩⟩

/-- Events of a replay come from `parse_row`. -/
def ExchangeCall.Displayed : ExchangeCall → Prop
  | .onMarketEvent event => event.Displayed
  | .submit _ _ | .cancel _ _ => True

instance : DecidablePred ExchangeCall.Displayed
  | .onMarketEvent event => inferInstanceAs (Decidable event.Displayed)
  | .submit _ _ | .cancel _ _ => isTrue trivial

/-- The outcomes of `activate`. -/
inductive Activated (config : PaperExchangeConfig) (event : MarketEvent) (books : Executions)
    (order : PaperOrder) : Executions × PaperOrder → Prop
  | idle : Activated config event books order (books, order)
  | refused (reason : String) : Activated config event books order (books, order.reject reason)
  | rested : order.status = .pending ∨ order.status = .cancelPending →
      order.request.type ≠ .market →
      Activated config event books order (books, order.rest event)
  | taken (price fee : Int64) (ledger : PerpetualLedger) (mutation : LedgerMutation) :
      Activated config event books order
        ({ books with ledger }.record order order.remainingQuantityUnits price fee
          mutation.realizedPnlUnits false event, order.take order.remainingQuantityUnits)

/-- The outcomes of `match_trade` for an order that the print reaches with `available` left. -/
inductive Served (config : PaperExchangeConfig) (event : MarketEvent) (tradePriceUnits : Int64)
    (aggressorSide : Side) (books : Executions) (available : Int64) (order : PaperOrder) :
    (Executions × Int64) × PaperOrder → Prop
  | passedOver : available ≤ 0 ∨ ¬ order.meetsTrade event tradePriceUnits aggressorSide →
      Served config event tradePriceUnits aggressorSide books available order
        ((books, available), order)
  | queued : 0 < available → order.meetsTrade event tradePriceUnits aggressorSide →
      order.behindQueue available ≤ 0 →
      Served config event tradePriceUnits aggressorSide books available order
        ((books, order.behindQueue available), order.advance available)
  -- a fill that is refused has spent its part of the print
  | refused (quantity : Int64) (reason : String) : 0 < available →
      order.meetsTrade event tradePriceUnits aggressorSide → 0 < order.behindQueue available →
      quantity = min order.remainingQuantityUnits (order.behindQueue available) →
      Served config event tradePriceUnits aggressorSide books available order
        ((books, order.behindQueue available - quantity), (order.advance available).reject reason)
  | filled (quantity fee : Int64) (ledger : PerpetualLedger) (mutation : LedgerMutation) :
      0 < available → order.meetsTrade event tradePriceUnits aggressorSide →
      0 < order.behindQueue available →
      quantity = min order.remainingQuantityUnits (order.behindQueue available) →
      Served config event tradePriceUnits aggressorSide books available order
        (({ books with ledger }.record (order.advance available) quantity order.limit fee
          mutation.realizedPnlUnits true event, order.behindQueue available - quantity),
          (order.advance available).take quantity)

section Orders
variable {config : PaperExchangeConfig} {event : MarketEvent} {books : Executions}
  {order : PaperOrder} {available : Int64}

theorem activate_activated (h : order.status = .pending ∨ order.status = .cancelPending) :
    Activated config event books order (Executions.activate config event books order) := by
  have hall : ∀ price, Activated config event books order
      (Executions.fill config books order order.remainingQuantityUnits price false event) := by
    intro price
    rcases fill_cases config books order price false event
        (int64_min_eq_left (Int64.le_refl order.remainingQuantityUnits)) with
      ⟨_, he⟩ | ⟨reason, he⟩ | ⟨fee, ledger, mutation, _, _, _, _, he⟩ <;> rw [he]
    · exact .idle
    · exact .refused reason
    · exact .taken price fee ledger mutation
  unfold Executions.activate
  dsimp only
  split_ifs with _ hmarket
  · exact .idle
  · split
    · exact .refused _
    · exact hall _
  · exact .refused _
  · exact hall _
  · exact .rested h hmarket

theorem activateDue_activated :
    Activated config event books order (Executions.activateDue config event books order) := by
  unfold Executions.activateDue
  split_ifs with h
  · exact activate_activated h.1
  · exact .idle

theorem matchOrder_served {tradePriceUnits : Int64} {aggressorSide : Side}
    (hremaining : order.isLive = true → 0 < order.remainingQuantityUnits.toInt) :
    Served config event tradePriceUnits aggressorSide books available order
      (Executions.matchOrder config event tradePriceUnits aggressorSide (books, available)
        order) := by
  rw [matchOrder_eq]
  split_ifs with hdone hmeets hahead
  · exact .passedOver (.inl hdone)
  · exact .queued (Int64.not_le.mp hdone) hmeets hahead
  · have havailable := Int64.not_le.mp hdone
    have hbehind := Int64.not_le.mp hahead
    have hquantity : min (min order.remainingQuantityUnits (order.behindQueue available))
        (order.advance available).remainingQuantityUnits =
          min order.remainingQuantityUnits (order.behindQueue available) := by
      refine int64_min_eq_left (Int64.le_iff_toInt_le.mpr ?_)
      rw [int64_toInt_min]
      exact min_le_left _ _
    rcases fill_cases config books (order.advance available) order.limit true event hquantity with
      ⟨hq, _⟩ | ⟨reason, he⟩ | ⟨fee, ledger, mutation, _, _, _, _, he⟩
    · refine absurd hq (Int64.not_le.mpr ((int64_pos_iff _).mpr ?_))
      rw [int64_toInt_min]
      exact lt_min (hremaining hmeets.isLive) ((int64_pos_iff _).mp hbehind)
    · simp only [he]
      exact .refused _ reason havailable hmeets hbehind rfl
    · simp only [he]
      exact .filled _ fee ledger mutation havailable hmeets hbehind rfl
  · exact .passedOver (.inr hmeets)

theorem toInt_behindQueue (hqueue : 0 ≤ order.queueAheadUnits.toInt) (havailable : 0 < available) :
    (order.behindQueue available).toInt =
        available.toInt - min order.queueAheadUnits.toInt available.toInt ∧
      (order.advance available).queueAheadUnits.toInt =
        order.queueAheadUnits.toInt - min order.queueAheadUnits.toInt available.toInt := by
  rw [int64_pos_iff] at havailable
  have hmin : 0 ≤ (min order.queueAheadUnits available).toInt := by
    rw [int64_toInt_min]
    exact le_min hqueue havailable.le
  rw [← int64_toInt_min]
  exact ⟨int64_toInt_sub_of_nonneg havailable.le hmin, int64_toInt_sub_of_nonneg hqueue hmin⟩

theorem toInt_behindQueue_of_pos (hqueue : 0 ≤ order.queueAheadUnits.toInt)
    (havailable : 0 < available) (hbehind : 0 < order.behindQueue available) :
    (order.behindQueue available).toInt = available.toInt - order.queueAheadUnits.toInt ∧
      (order.advance available).queueAheadUnits.toInt = 0 := by
  obtain ⟨hleft, hahead⟩ := toInt_behindQueue hqueue havailable
  rw [int64_pos_iff] at hbehind
  omega

theorem toInt_leftover {quantity : Int64}
    (hremaining : order.isLive = true → 0 < order.remainingQuantityUnits.toInt)
    (hlive : order.isLive = true) (hbehind : 0 < order.behindQueue available)
    (hquantity : quantity = min order.remainingQuantityUnits (order.behindQueue available)) :
    quantity.toInt = min order.remainingQuantityUnits.toInt (order.behindQueue available).toInt ∧
      0 < quantity.toInt ∧ (order.behindQueue available - quantity).toInt =
        (order.behindQueue available).toInt - quantity.toInt := by
  have hrem := hremaining hlive
  rw [int64_pos_iff] at hbehind
  have hq : quantity.toInt =
      min order.remainingQuantityUnits.toInt (order.behindQueue available).toInt := by
    rw [hquantity, int64_toInt_min]
  have hpos : 0 < quantity.toInt := hq ▸ lt_min hrem hbehind
  exact ⟨hq, hpos, int64_toInt_sub_of_nonneg hbehind.le hpos.le⟩

theorem Activated.queue_nonneg {cell : Executions × PaperOrder}
    (h : Activated config event books order cell) (hqueue : 0 ≤ order.queueAheadUnits.toInt)
    (hevent : event.Displayed) : 0 ≤ cell.2.queueAheadUnits.toInt := by
  cases h with
  | idle => exact hqueue
  | refused => exact hqueue
  | taken => exact hqueue
  | rested =>
    simp only [PaperOrder.rest]
    split_ifs
    · exact hevent.bid
    · exact hevent.ask
    · exact hqueue

theorem Served.queue_le {tradePriceUnits : Int64} {aggressorSide : Side}
    {cell : (Executions × Int64) × PaperOrder}
    (h : Served config event tradePriceUnits aggressorSide books available order cell)
    (hqueue : 0 ≤ order.queueAheadUnits.toInt) :
    0 ≤ cell.2.queueAheadUnits.toInt ∧
      cell.2.queueAheadUnits.toInt ≤ order.queueAheadUnits.toInt := by
  have hadvanced : 0 < available → 0 ≤ (order.advance available).queueAheadUnits.toInt ∧
      (order.advance available).queueAheadUnits.toInt ≤ order.queueAheadUnits.toInt := by
    intro havailable
    rw [(toInt_behindQueue hqueue havailable).2]
    rw [int64_pos_iff] at havailable
    omega
  cases h with
  | passedOver => exact ⟨hqueue, le_rfl⟩
  | queued havailable => exact hadvanced havailable
  | refused _ _ havailable => exact hadvanced havailable
  | filled _ _ _ _ havailable => exact hadvanced havailable

end Orders

namespace PaperExchange

/-- No displayed quantity that the exchange keeps is negative. -/
structure QueuesNonneg (exchange : PaperExchange) : Prop where
  market : ∀ event ∈ exchange.market, event.Displayed
  orders : ∀ order ∈ exchange.orders, 0 ≤ order.queueAheadUnits.toInt

/-- The state in which `match_trade` finds the exchange on an accepted event. -/
def opened (exchange : PaperExchange) (event : MarketEvent) : PaperExchange :=
  { exchange with market := some event }.activateOrders event

section Calls
variable {config : PaperExchangeConfig} {exchange : PaperExchange} {event : MarketEvent}

theorem Consistent.opened (h : Consistent config exchange) (haccepts : exchange.accepts event) :
    Consistent config (exchange.opened event) := by
  have hobserved := h.transition (.observe exchange event haccepts trivial :
    Transition (fun _ => True) (fun _ _ => True) exchange { exchange with market := some event })
  exact chain_invariant (fun hs hstep => hs.transition hstep) hobserved
    (@activateOrders_transitions (fun _ => True) (fun _ _ => True) _ _ rfl)

theorem matchTrade_cases (exchange : PaperExchange) (event : MarketEvent) :
    exchange.matchTrade event = exchange ∨
      ∃ tradePriceUnits aggressorSide, event.tradePriceUnits = some tradePriceUnits ∧
        event.aggressorSide = some aggressorSide ∧ 0 < event.tradeQuantityUnits ∧
        exchange.matchTrade event = { exchange with
          toExecutions := (sweep (Executions.matchOrder exchange.config event tradePriceUnits
            aggressorSide) (exchange.toExecutions, event.tradeQuantityUnits) exchange.orders).1.1
          orders := (sweep (Executions.matchOrder exchange.config event tradePriceUnits
            aggressorSide) (exchange.toExecutions, event.tradeQuantityUnits)
            exchange.orders).2 } := by
  unfold matchTrade
  split
  · rename_i tradePriceUnits aggressorSide hprice hside
    split_ifs with hquantity
    · exact .inl rfl
    · exact .inr ⟨_, _, hprice, hside, Int64.not_le.mp hquantity, rfl⟩
  · exact .inl rfl

theorem queuesNonneg_opened (h : QueuesNonneg exchange) (hevent : event.Displayed) :
    ∀ order ∈ (exchange.opened event).orders, 0 ≤ order.queueAheadUnits.toInt :=
  forall_mem_sweep fun _ order horder =>
    activateDue_activated.queue_nonneg (h.orders order horder) hevent

theorem queuesNonneg_matchTrade (h : Consistent config exchange)
    (hqueues : ∀ order ∈ exchange.orders, 0 ≤ order.queueAheadUnits.toInt) :
    ∀ order ∈ (exchange.matchTrade event).orders, 0 ≤ order.queueAheadUnits.toInt := by
  rcases matchTrade_cases exchange event with he | ⟨_, _, _, _, _, he⟩ <;> rw [he]
  · exact hqueues
  · refine forall_mem_sweep fun pass order horder => ?_
    exact ((matchOrder_served (h.orders order horder).live).queue_le (hqueues order horder)).1

theorem queueAhead_applyDueCancel (event : MarketEvent) (order : PaperOrder) :
    (order.applyDueCancel event).queueAheadUnits = order.queueAheadUnits := by
  unfold PaperOrder.applyDueCancel
  split
  · split_ifs <;> rfl
  · rfl

theorem QueuesNonneg.submit (h : QueuesNonneg exchange) (request : OrderRequest)
    (decisionTimeNs : Int64) : QueuesNonneg (exchange.submit request decisionTimeNs).1 := by
  rcases submit_cases exchange request decisionTimeNs with he | ⟨market, hadmitted, he⟩
  · rw [he]
    exact h
  · have hevent := h.market market (by rw [hadmitted.heard]; rfl)
    have hplaced : 0 ≤ (exchange.place request decisionTimeNs).queueAheadUnits.toInt :=
      Int64.toInt_zero.ge
    rw [he]
    unfold store
    split_ifs
    · refine ⟨h.market, List.forall_mem_append.mpr ⟨h.orders, List.forall_mem_singleton.mpr ?_⟩⟩
      exact (activate_activated (.inl rfl)).queue_nonneg hplaced hevent
    · exact ⟨h.market, List.forall_mem_append.mpr ⟨h.orders, List.forall_mem_singleton.mpr
        hplaced⟩⟩

theorem QueuesNonneg.call (h : QueuesNonneg exchange) (hs : Consistent config exchange)
    {c : ExchangeCall} (hc : c.Displayed) : QueuesNonneg (exchange.call c) := by
  cases c with
  | onMarketEvent event =>
    rw [PaperExchange.call, onMarketEvent]
    split_ifs with haccepts
    · refine ⟨?_, ?_⟩
      · have hmarket : (((exchange.opened event).matchTrade event).applyDueCancels event).market =
            some event := matchTrade_market _ _
        exact fun heard hheard => (Option.mem_some_iff.mp (hmarket ▸ hheard)) ▸ hc
      · refine List.forall_mem_map.mpr fun order horder => ?_
        rw [queueAhead_applyDueCancel]
        exact queuesNonneg_matchTrade (hs.opened haccepts) (queuesNonneg_opened h hc) order horder
    · exact ⟨h.market, h.orders⟩
  | submit request decisionTimeNs => exact h.submit request decisionTimeNs
  | cancel clientOrderId requestTimeNs =>
    rw [PaperExchange.call]
    rcases cancel_cases exchange clientOrderId requestTimeNs with
      he | ⟨pre, order, post, hsplit, _, _, _, he⟩ <;> rw [he]
    · exact h
    · exact ⟨h.market, forall_mem_replace (hsplit ▸ h.orders) (h.orders order (by simp [hsplit]))⟩

theorem queuesNonneg_run (hvalid : validConfig config = true) {calls : List ExchangeCall}
    (hcalls : ∀ c ∈ calls, c.Displayed) : QueuesNonneg (run config calls) := by
  refine (run_invariant (I := fun s => Consistent config s ∧ QueuesNonneg s)
    (fun s c hs hc => ⟨hs.1.call c, hs.2.call hs.1 hc⟩) ⟨consistent_new hvalid, ?_, ?_⟩
    (AllSteps.of_mem _ hcalls)).2
  · exact fun event hevent => absurd hevent (by simp [new])
  · exact fun order horder => absurd horder (by simp [new])

end Calls
end PaperExchange
end Astra
