import AstraTrader.Exchange.Model
import AstraTrader.Process.Run

/-! Everything the exchange can do, said once: an event moves one order at a time, and each
call is a chain of such transitions. Invariants are then checked transition by transition. -/

namespace Astra
open Relation

/-- Why a fill has its price, and on which side of the trade its order stood. -/
inductive Priced (config : PaperExchangeConfig) (event : MarketEvent) (order : PaperOrder) :
    Int64 → Bool → Prop
  | market {price : Int64} : order.request.type = .market →
      slippedPrice (event.touch order.request.side) order.request.side
        config.marketSlippagePpm = some price →
      Priced config event order price false
  | taker : order.request.type = .limit → order.crosses event = true →
      Priced config event order (event.touch order.request.side) false
  | maker {tradePriceUnits : Int64} {aggressorSide : Side} :
      event.tradePriceUnits = some tradePriceUnits → event.aggressorSide = some aggressorSide →
      order.meetsTrade event tradePriceUnits aggressorSide →
      Priced config event order order.limit true

/-- What an event can do to a live order and to the books. -/
inductive Move (config : PaperExchangeConfig) (event : MarketEvent) :
    Executions × PaperOrder → Executions × PaperOrder → Prop
  | reject (books : Executions) (order : PaperOrder) (reason : String) : order.isLive = true →
      Move config event (books, order) (books, order.reject reason)
  | rest (books : Executions) (order : PaperOrder) :
      order.status = .pending ∨ order.status = .cancelPending → order.request.type ≠ .market →
      Move config event (books, order) (books, order.rest event)
  | queue (books : Executions) (order : PaperOrder) (queueAheadUnits : Int64) :
      order.isLive = true →
      Move config event (books, order) (books, { order with queueAheadUnits })
  | execute (books : Executions) (order : PaperOrder) (quantity price fee : Int64)
      (maker : Bool) (ledger : PerpetualLedger) (mutation : LedgerMutation) :
      order.isLive = true → order.activeTimeNs ≤ event.receiveTimeNs →
      0 < quantity → quantity ≤ order.remainingQuantityUnits →
      (maker = false → quantity = order.remainingQuantityUnits) →
      Priced config event order price maker →
      Executions.fillFee config price quantity maker = some fee →
      books.ledger.applyFill (signedQuantity order.request.side quantity) price fee =
        (ledger, mutation) → mutation.succeeded = true →
      Move config event (books, order)
        ({ books with ledger }.record order quantity price fee mutation.realizedPnlUnits maker
          event, order.take quantity)
  | cancel (books : Executions) (order : PaperOrder) : order.isLive = true →
      Move config event (books, order)
        (books, { order with status := .cancelled, remainingQuantityUnits := 0 })

section Orders
variable {config : PaperExchangeConfig} {event : MarketEvent} {books : Executions}
  {order : PaperOrder}

theorem isLive_of_waiting (h : order.status = .pending ∨ order.status = .cancelPending) :
    order.isLive = true := by
  rcases h with h | h <;> simp [PaperOrder.isLive, isTerminal, h]

theorem PaperOrder.meetsTrade.isLive {tradePriceUnits : Int64} {aggressorSide : Side}
    (h : order.meetsTrade event tradePriceUnits aggressorSide) : order.isLive = true := by
  rcases h.1 with h | h | h <;> simp [PaperOrder.isLive, isTerminal, h]

theorem isLive_reject (order : PaperOrder) (reason : String) :
    (order.reject reason).isLive = false := rfl

theorem isLive_take_all (order : PaperOrder) :
    (order.take order.remainingQuantityUnits).isLive = false := by
  simp [PaperOrder.isLive, PaperOrder.take, isTerminal]

theorem status_take_ne (order : PaperOrder) (quantity : Int64) :
    (order.take quantity).status ≠ .pending ∧ (order.take quantity).status ≠ .cancelPending := by
  simp only [PaperOrder.take]
  split_ifs <;> simp

theorem applyFill_of_not_succeeded {ledger next : PerpetualLedger} {mutation : LedgerMutation}
    {signedQuantityUnits priceUnits feeUnits : Int64}
    (h : ledger.applyFill signedQuantityUnits priceUnits feeUnits = (next, mutation))
    (hm : mutation.succeeded = false) : next = ledger := by
  unfold PerpetualLedger.applyFill at h
  split at h
  · exact (congrArg Prod.fst h).symm
  · have hmutation : _ = mutation := congrArg Prod.snd h
    rw [← hmutation] at hm
    exact absurd hm (by simp [LedgerMutation.succeeded])

theorem fill_cases (config : PaperExchangeConfig) (books : Executions) (order : PaperOrder)
    (price : Int64) (maker : Bool) (event : MarketEvent) {quantityUnits quantity : Int64}
    (hquantity : min quantityUnits order.remainingQuantityUnits = quantity) :
    (quantity ≤ 0 ∧ Executions.fill config books order quantityUnits price maker event =
      (books, order)) ∨
    (∃ reason, Executions.fill config books order quantityUnits price maker event =
      (books, order.reject reason)) ∨
    ∃ fee ledger mutation, 0 < quantity ∧
      Executions.fillFee config price quantity maker = some fee ∧
      books.ledger.applyFill (signedQuantity order.request.side quantity) price fee =
        (ledger, mutation) ∧ mutation.succeeded = true ∧
      Executions.fill config books order quantityUnits price maker event =
        ({ books with ledger }.record order quantity price fee mutation.realizedPnlUnits maker
          event, order.take quantity) := by
  unfold Executions.fill
  simp only [hquantity]
  by_cases hq : quantity ≤ 0
  · exact .inl ⟨hq, if_pos hq⟩
  right
  simp only [if_neg hq]
  cases hfee : Executions.fillFee config price quantity maker with
  | none => exact .inl ⟨_, rfl⟩
  | some fee =>
    rcases hbook : books.ledger.applyFill (signedQuantity order.request.side quantity) price fee
      with ⟨ledger, mutation⟩
    cases hm : mutation.succeeded with
    | true =>
      exact .inr ⟨fee, ledger, mutation, Int64.not_le.mp hq, rfl, hbook, hm, by simp [hbook, hm]⟩
    | false =>
      rw [applyFill_of_not_succeeded hbook hm] at hbook
      exact .inl ⟨mutation.error.toString, by simp [hbook, hm]⟩

theorem fill_moves {quantityUnits price : Int64} {maker : Bool} (hlive : order.isLive = true)
    (hactive : order.activeTimeNs ≤ event.receiveTimeNs)
    (hall : maker = false → quantityUnits = order.remainingQuantityUnits)
    (hprice : Priced config event order price maker) :
    ReflTransGen (Move config event) (books, order)
      (Executions.fill config books order quantityUnits price maker event) := by
  have hle : min quantityUnits order.remainingQuantityUnits ≤ order.remainingQuantityUnits :=
    Int64.le_iff_toInt_le.mpr (by
      rw [FixedWidth.int64_toInt_min]
      exact min_le_right _ _)
  rcases fill_cases config books order price maker event rfl with
    ⟨_, he⟩ | ⟨reason, he⟩ | ⟨fee, ledger, mutation, hpos, hfee, hbook, hm, he⟩ <;> rw [he]
  · exact .single (.reject _ _ _ hlive)
  · refine .single (.execute _ _ _ _ _ _ _ _ hlive hactive hpos hle (fun hm => ?_) hprice hfee
      hbook hm)
    rw [hall hm]
    exact FixedWidth.int64_min_eq_right (Int64.le_refl _)

theorem activate_moves (h : order.status = .pending ∨ order.status = .cancelPending) :
    ReflTransGen (Move config event) (books, order)
      (Executions.activate config event books order) := by
  have hlive := isLive_of_waiting h
  unfold Executions.activate
  dsimp only
  split_ifs with hskip hmarket hpost hcross
  · exact .refl
  · have hactive := Int64.not_lt.mp (not_or.mp hskip).2
    cases hslip : slippedPrice (event.touch order.request.side) order.request.side
        config.marketSlippagePpm with
    | none => exact .single (.reject _ _ _ hlive)
    | some price => exact fill_moves hlive hactive (fun _ => rfl) (.market hmarket hslip)
  · exact .single (.reject _ _ _ hlive)
  · have hlimit : order.request.type = .limit := by
      cases htype : order.request.type with
      | market => exact absurd htype hmarket
      | limit => rfl
      | postOnly => exact absurd ⟨htype, hcross⟩ hpost
    exact fill_moves hlive (Int64.not_lt.mp (not_or.mp hskip).2) (fun _ => rfl)
      (.taker hlimit hcross)
  · exact .single (.rest _ _ h hmarket)

theorem activateDue_moves : ReflTransGen (Move config event) (books, order)
    (Executions.activateDue config event books order) := by
  unfold Executions.activateDue
  split_ifs with h
  · exact activate_moves h.1
  · exact .refl

theorem matchOrder_moves {tradePriceUnits available : Int64} {aggressorSide : Side}
    (hprice : event.tradePriceUnits = some tradePriceUnits)
    (hside : event.aggressorSide = some aggressorSide) :
    ReflTransGen (Move config event) (books, order)
      ((Executions.matchOrder config event tradePriceUnits aggressorSide (books, available)
        order).1.1,
      (Executions.matchOrder config event tradePriceUnits aggressorSide (books, available)
        order).2) := by
  unfold Executions.matchOrder
  dsimp only
  split_ifs with hdone hmeets hahead
  · exact .refl
  · exact .single (.queue _ _ _ hmeets.isLive)
  -- first the queue ahead is served, then the order
  · refine .head (.queue _ _ (order.queueAheadUnits - min order.queueAheadUnits available)
      hmeets.isLive) ?_
    exact fill_moves hmeets.isLive hmeets.2.1 (fun hm => absurd hm (by decide))
      (.maker hprice hside hmeets)
  · exact .refl

theorem applyDueCancel_moves : ReflTransGen (Move config event) (books, order)
    (books, order.applyDueCancel event) := by
  unfold PaperOrder.applyDueCancel
  split
  · split_ifs with h
    · exact .single (.cancel _ _ (isLive_of_waiting (.inr h.1)))
    · exact .refl
  · exact .refl

theorem Move.order_eq {a b : Executions × PaperOrder} (h : Move config event a b) :
    b.2.orderId = a.2.orderId ∧ b.2.request = a.2.request ∧
      b.2.activeTimeNs = a.2.activeTimeNs ∧ a.2.isLive = true := by
  cases h with
  | reject _ _ _ hlive => exact ⟨rfl, rfl, rfl, hlive⟩
  | rest _ _ h => exact ⟨rfl, rfl, rfl, isLive_of_waiting h⟩
  | queue _ _ _ hlive => exact ⟨rfl, rfl, rfl, hlive⟩
  | execute _ _ _ _ _ _ _ _ hlive => exact ⟨rfl, rfl, rfl, hlive⟩
  | cancel _ _ hlive => exact ⟨rfl, rfl, rfl, hlive⟩

theorem moves_order_eq {a b : Executions × PaperOrder}
    (h : ReflTransGen (Move config event) a b) :
    b.2.orderId = a.2.orderId ∧ b.2.request = a.2.request := by
  induction h with
  | refl => exact ⟨rfl, rfl⟩
  | tail _ hmove ih => exact ⟨hmove.order_eq.1.trans ih.1, hmove.order_eq.2.1.trans ih.2⟩

end Orders

namespace PaperExchange
open Process

/-- A request that `submit` stores. -/
structure Admitted (exchange : PaperExchange) (request : OrderRequest) (market : MarketEvent)
    (decisionTimeNs : Int64) : Prop where
  unknown : exchange.findOrder request.clientOrderId = none
  configValid : exchange.configValid = true
  heard : exchange.market = some market
  passes : exchange.refusal request market decisionTimeNs = none

/-- What is known of a request that no check refuses. -/
structure Passes (exchange : PaperExchange) (request : OrderRequest) (market : MarketEvent)
    (decisionTimeNs : Int64) : Prop where
  named : request.clientOrderId ≠ ""
  priced : request.type ≠ .market → 0 < request.limitPriceUnits.getD 0
  risk : exchange.risk.evaluate request market exchange.ledger.state decisionTimeNs = .accept
  quantity : 0 < (normalized exchange.config request).quantityUnits
  notional : ∃ notional, calculateNotional (RiskEngine.referencePrice request market)
    (normalized exchange.config request).quantityUnits exchange.config.ledger = some notional ∧
      exchange.config.minimumNotionalUnits ≤ notional

theorem passes_of_refusal_eq_none {exchange : PaperExchange} {request : OrderRequest}
    {market : MarketEvent} {decisionTimeNs : Int64}
    (h : exchange.refusal request market decisionTimeNs = none) :
    exchange.Passes request market decisionTimeNs := by
  unfold refusal at h
  dsimp only at h
  split_ifs at h with hname hprice hrisk hquantity
  -- cutting the quantity leaves the price alone
  have hreference : RiskEngine.referencePrice (normalized exchange.config request) market =
      RiskEngine.referencePrice request market := rfl
  rw [hreference] at h
  cases hnotional : calculateNotional (RiskEngine.referencePrice request market)
      (normalized exchange.config request).quantityUnits exchange.config.ledger with
  | none =>
    rw [hnotional] at h
    exact absurd h (by simp)
  | some notional =>
    rw [hnotional] at h
    dsimp only at h
    split_ifs at h with hmin
    refine ⟨hname, fun ht => ?_, not_not.mp hrisk, Int64.not_le.mp hquantity, notional, hnotional,
      Int64.not_lt.mp hmin⟩
    exact Int64.not_le.mp fun hle => hprice ⟨ht, hle⟩

/-- A refusal that names neither a risk nor an overflow is for the least notional. -/
theorem notional_lt_of_refusal {exchange : PaperExchange} {request : OrderRequest}
    {market : MarketEvent} {decisionTimeNs : Int64} {reason : String}
    (h : exchange.refusal request market decisionTimeNs = some reason)
    (hreason : reason ∈ ["", "minimum_notional"]) :
    ∃ notional, calculateNotional (RiskEngine.referencePrice request market)
      (normalized exchange.config request).quantityUnits exchange.config.ledger = some notional ∧
        notional < exchange.config.minimumNotionalUnits := by
  unfold refusal at h
  dsimp only at h
  have hreference : RiskEngine.referencePrice (normalized exchange.config request) market =
      RiskEngine.referencePrice request market := rfl
  rw [hreference] at h
  split_ifs at h with _ _ hrisk <;> try rw [← Option.some.inj h] at hreason
  · exact absurd hreason (by decide)
  · exact absurd hreason (by decide)
  · refine absurd hreason ?_
    cases exchange.risk.evaluate request market exchange.ledger.state decisionTimeNs <;> decide
  · exact absurd hreason (by decide)
  · cases hnotional : calculateNotional (RiskEngine.referencePrice request market)
        (normalized exchange.config request).quantityUnits exchange.config.ledger with
    | none =>
      rw [hnotional] at h
      rw [← Option.some.inj h] at hreason
      exact absurd hreason (by decide)
    | some notional =>
      rw [hnotional] at h
      dsimp only at h
      split_ifs at h with hmin
      exact ⟨notional, rfl, hmin⟩

section Quantities
variable {config : PaperExchangeConfig} {request : OrderRequest}

theorem quantityStep_pos (h : validConfig config = true) : 0 < config.quantityStepUnits.toInt := by
  simp only [validConfig, Bool.and_eq_true, decide_eq_true_eq] at h
  exact (FixedWidth.int64_pos_iff _).mp (by tauto)

theorem toInt_normalized (hstep : 0 < config.quantityStepUnits.toInt)
    (hq : 0 < request.quantityUnits.toInt) :
    (normalized config request).quantityUnits.toInt =
      request.quantityUnits.toInt / config.quantityStepUnits.toInt *
        config.quantityStepUnits.toInt := by
  have hlt := request.quantityUnits.toInt_lt
  have hdiv : 0 ≤ request.quantityUnits.toInt / config.quantityStepUnits.toInt :=
    Int.ediv_nonneg hq.le hstep.le
  have hself := Int.ediv_le_self config.quantityStepUnits.toInt hq.le
  have hmul := Int.ediv_mul_le request.quantityUnits.toInt hstep.ne'
  have hnonneg := mul_nonneg hdiv hstep.le
  have hquotient : (request.quantityUnits / config.quantityStepUnits).toInt =
      request.quantityUnits.toInt / config.quantityStepUnits.toInt := by
    rw [Int64.toInt_div, Int.tdiv_eq_ediv_of_nonneg hq.le]
    exact Int.bmod_eq_of_le (m := 2 ^ 64) (by omega) (by omega)
  show (request.quantityUnits / config.quantityStepUnits * config.quantityStepUnits).toInt = _
  rw [Int64.toInt_mul, hquotient]
  exact Int.bmod_eq_of_le (m := 2 ^ 64) (by omega) (by omega)

theorem normalized_le (hstep : 0 < config.quantityStepUnits.toInt)
    (hq : 0 < request.quantityUnits.toInt) :
    (normalized config request).quantityUnits.toInt ≤ request.quantityUnits.toInt := by
  rw [toInt_normalized hstep hq]
  exact Int.ediv_mul_le _ hstep.ne'

theorem lt_two_mul_normalized (hstep : 0 < config.quantityStepUnits.toInt)
    (hq : 0 < request.quantityUnits.toInt)
    (hleft : 0 < (normalized config request).quantityUnits.toInt) :
    request.quantityUnits.toInt < 2 * (normalized config request).quantityUnits.toInt := by
  rw [toInt_normalized hstep hq] at hleft ⊢
  have hcut := Int.lt_ediv_add_one_mul_self request.quantityUnits.toInt hstep
  have hquotient : 1 ≤ request.quantityUnits.toInt / config.quantityStepUnits.toInt :=
    pos_of_mul_pos_left hleft hstep.le
  have hwhole := le_mul_of_one_le_left hstep.le hquotient
  rw [add_mul, one_mul] at hcut
  omega

end Quantities

def append (exchange : PaperExchange) (order : PaperOrder) : PaperExchange :=
  { exchange with
    orders := exchange.orders ++ [order]
    orderIndex := emplace exchange.orderIndex order.request.clientOrderId exchange.orders.length
    nextOrderId := exchange.nextOrderId + 1 }

/-- The atomic changes of the exchange. Events come from `heard`, and `allow` is what is known
of each request when its order is stored. -/
inductive Transition (heard : MarketEvent → Prop) (allow : PaperExchange → OrderRequest → Prop) :
    PaperExchange → PaperExchange → Prop
  | observe (exchange : PaperExchange) (event : MarketEvent) : exchange.accepts event →
      heard event → Transition heard allow exchange { exchange with market := some event }
  | ignore (exchange : PaperExchange) : Transition heard allow exchange
      { exchange with ignoredMarketEvents := exchange.ignoredMarketEvents + 1 }
  | mark (exchange : PaperExchange) (priceUnits : Int64) : exchange.configValid = true →
      Transition heard allow exchange (exchange.markToMarket priceUnits)
  | move (exchange : PaperExchange) (event : MarketEvent) (pre post : List PaperOrder)
      (order moved : PaperOrder) (books : Executions) : exchange.market = some event →
      exchange.orders = pre ++ order :: post →
      Move exchange.config event (exchange.toExecutions, order) (books, moved) →
      Transition heard allow exchange
        { exchange with toExecutions := books, orders := pre ++ moved :: post }
  | append (exchange : PaperExchange) (request : OrderRequest) (market : MarketEvent)
      (decisionTimeNs : Int64) : exchange.Admitted request market decisionTimeNs →
      allow exchange request →
      Transition heard allow exchange (exchange.append (exchange.place request decisionTimeNs))
  | requestCancel (exchange : PaperExchange) (pre post : List PaperOrder) (order : PaperOrder)
      (due : Int64) : exchange.orders = pre ++ order :: post → order.isLive = true →
      Transition heard allow exchange { exchange with
        orders := pre ++ { order with status := .cancelPending, cancelDueTimeNs := some due } ::
          post }

/-- What a call must bring for its transitions to be within `heard` and `allow`. -/
def Permits (heard : MarketEvent → Prop) (allow : PaperExchange → OrderRequest → Prop)
    (exchange : PaperExchange) : ExchangeCall → Prop
  | .onMarketEvent event => exchange.accepts event → heard event
  | .submit request decisionTimeNs =>
    (∃ market, exchange.Admitted request market decisionTimeNs) → allow exchange request
  | .cancel _ _ => True

theorem activateOrders_market (exchange : PaperExchange) (event : MarketEvent) :
    (exchange.activateOrders event).market = exchange.market := rfl

theorem matchTrade_market (exchange : PaperExchange) (event : MarketEvent) :
    (exchange.matchTrade event).market = exchange.market := by
  unfold matchTrade
  split
  · split_ifs <;> rfl
  · rfl

theorem matchTrade_configValid (exchange : PaperExchange) (event : MarketEvent) :
    (exchange.matchTrade event).configValid = exchange.configValid := by
  unfold matchTrade
  split
  · split_ifs <;> rfl
  · rfl

section Transitions
variable {heard : MarketEvent → Prop} {allow : PaperExchange → OrderRequest → Prop}
  {exchange : PaperExchange} {event : MarketEvent}

theorem moves_transitions {books : Executions} {order : PaperOrder} {pre post : List PaperOrder}
    {cell : Executions × PaperOrder} (hmarket : exchange.market = some event)
    (h : ReflTransGen (Move exchange.config event) (books, order) cell) :
    ReflTransGen (Transition heard allow)
      { exchange with toExecutions := books, orders := pre ++ order :: post }
      { exchange with toExecutions := cell.1, orders := pre ++ cell.2 :: post } := by
  induction h with
  | refl => exact .refl
  | tail _ hmove ih =>
    exact ih.tail (.move _ event pre post _ _ _ hmarket rfl hmove)

/-- A loop whose body moves the order it stands at is a chain of transitions. -/
theorem sweep_transitions {σ : Type} {body : σ → PaperOrder → σ × PaperOrder}
    (books : σ → Executions) (hmarket : exchange.market = some event)
    (hbody : ∀ s order, ReflTransGen (Move exchange.config event) (books s, order)
      (books (body s order).1, (body s order).2)) {s : σ} (hs : books s = exchange.toExecutions) :
    ReflTransGen (Transition heard allow) exchange { exchange with
      toExecutions := books (sweep body s exchange.orders).1
      orders := (sweep body s exchange.orders).2 } := by
  -- the loop so far is a chain, and its next cell prolongs it
  refine sweep_invariant (I := fun s orders => ReflTransGen (Transition heard allow) exchange
    { exchange with toExecutions := books s, orders }) (fun s pre order post h => ?_) ?_
  · exact h.trans (moves_transitions hmarket (hbody s order))
  · rw [hs]

theorem activateOrders_transitions (hmarket : exchange.market = some event) :
    ReflTransGen (Transition heard allow) exchange (exchange.activateOrders event) :=
  sweep_transitions id hmarket (fun _ _ => activateDue_moves) rfl

theorem matchTrade_transitions (hmarket : exchange.market = some event) :
    ReflTransGen (Transition heard allow) exchange (exchange.matchTrade event) := by
  unfold matchTrade
  split
  · rename_i tradePriceUnits aggressorSide hprice hside
    split_ifs
    · exact .refl
    · exact sweep_transitions Prod.fst hmarket
        (fun _ _ => matchOrder_moves hprice hside) rfl
  · exact .refl

theorem applyDueCancels_transitions (hmarket : exchange.market = some event) :
    ReflTransGen (Transition heard allow) exchange (exchange.applyDueCancels event) := by
  have h := @sweep_transitions heard allow exchange event _
    (fun books order => (books, order.applyDueCancel event)) id hmarket
    (fun _ _ => applyDueCancel_moves) exchange.toExecutions rfl
  rwa [sweep_map] at h

/-- What follows once an event is accepted: its transitions need neither another event nor a
new order. -/
theorem observed_transitions (haccepts : exchange.accepts event) :
    ReflTransGen (Transition heard allow) { exchange with market := some event }
      (exchange.onMarketEvent event).1 := by
  unfold onMarketEvent
  rw [if_pos haccepts]
  refine (activateOrders_transitions rfl).trans ?_
  refine (matchTrade_transitions (activateOrders_market _ _)).trans ?_
  refine (applyDueCancels_transitions
    ((matchTrade_market _ _).trans (activateOrders_market _ _))).trans ?_
  exact .single (.mark _ _ ((matchTrade_configValid _ _).trans haccepts.1))

theorem onMarketEvent_transitions (hheard : exchange.accepts event → heard event) :
    ReflTransGen (Transition heard allow) exchange (exchange.onMarketEvent event).1 := by
  by_cases haccepts : exchange.accepts event
  · exact .head (.observe _ _ haccepts (hheard haccepts)) (observed_transitions haccepts)
  · unfold onMarketEvent
    rw [if_neg haccepts]
    exact .single (.ignore _)

theorem onMarketEvent_accepted_iff :
    (exchange.onMarketEvent event).2 = true ↔ exchange.accepts event := by
  unfold onMarketEvent
  split_ifs with haccepts
  · exact iff_of_true rfl haccepts
  · exact iff_of_false id haccepts

theorem store_eq (exchange : PaperExchange) (order : PaperOrder) (market : MarketEvent) :
    (exchange.store order market).1 =
        { exchange.append order with
          toExecutions := if exchange.config.acknowledgementLatencyNs = 0 then
            (Executions.activate exchange.config market exchange.toExecutions order).1
            else exchange.toExecutions
          orders := exchange.orders ++ [(exchange.store order market).2] } := by
  unfold store append
  split_ifs <;> rfl

theorem store_moves {request : OrderRequest} {market : MarketEvent} {decisionTimeNs : Int64}
    (h : exchange.Admitted request market decisionTimeNs) :
    ReflTransGen (Transition heard allow) (exchange.append (exchange.place request decisionTimeNs))
      (exchange.store (exchange.place request decisionTimeNs) market).1 := by
  unfold store
  split_ifs
  · exact @moves_transitions heard allow (exchange.append (exchange.place request decisionTimeNs))
      market _ _ exchange.orders [] _ h.heard (activate_moves (.inl rfl))
  · exact .refl

theorem submit_outcome (exchange : PaperExchange) (request : OrderRequest)
    (decisionTimeNs : Int64) :
    (∃ i order, exchange.findOrder request.clientOrderId = some (i, order) ∧
      (exchange.submit request decisionTimeNs).1 = exchange) ∨
    ((exchange.submit request decisionTimeNs).1 = exchange ∧
      (exchange.submit request decisionTimeNs).2.status = .rejected ∧
      (exchange.submit request decisionTimeNs).2.duplicate = false) ∨
    ∃ market stored, exchange.Admitted request market decisionTimeNs ∧
      exchange.store (exchange.place request decisionTimeNs) market =
        ((exchange.submit request decisionTimeNs).1, stored) ∧
      (exchange.submit request decisionTimeNs).2 =
        { orderId := stored.orderId, status := stored.status, reason := stored.rejectReason } := by
  unfold submit
  cases hfind : exchange.findOrder request.clientOrderId with
  | some found => exact .inl ⟨found.1, found.2, rfl, rfl⟩
  | none =>
    cases hvalid : exchange.configValid with
    | false => exact .inr (.inl ⟨rfl, rfl, rfl⟩)
    | true =>
      cases hmarket : exchange.market with
      | none => exact .inr (.inl ⟨rfl, rfl, rfl⟩)
      | some market =>
        cases hrefusal : exchange.refusal request market decisionTimeNs with
        | some reason => exact .inr (.inl (by simp [hrefusal]))
        | none =>
          refine .inr (.inr ⟨market, (exchange.store (exchange.place request decisionTimeNs)
            market).2, ⟨hfind, hvalid, hmarket, hrefusal⟩, ?_, ?_⟩)
          · simp [hrefusal]
          · simp [hrefusal]

theorem submit_cases (exchange : PaperExchange) (request : OrderRequest) (decisionTimeNs : Int64) :
    (exchange.submit request decisionTimeNs).1 = exchange ∨
      ∃ market, exchange.Admitted request market decisionTimeNs ∧
        (exchange.submit request decisionTimeNs).1 =
          (exchange.store (exchange.place request decisionTimeNs) market).1 := by
  rcases submit_outcome exchange request decisionTimeNs with
    ⟨_, _, _, he⟩ | ⟨he, _⟩ | ⟨market, stored, hadmitted, hstore, _⟩
  · exact .inl he
  · exact .inl he
  · exact .inr ⟨market, hadmitted, by rw [hstore]⟩

/-- The call to `submit` stores an order. -/
def Stores (exchange : PaperExchange) (request : OrderRequest) (decisionTimeNs : Int64) : Prop :=
  (exchange.submit request decisionTimeNs).1.orders ≠ exchange.orders

instance (exchange : PaperExchange) (request : OrderRequest) (decisionTimeNs : Int64) :
    Decidable (exchange.Stores request decisionTimeNs) := inferInstanceAs (Decidable (_ ≠ _))

theorem Admitted.submit_eq {request : OrderRequest} {market : MarketEvent}
    {decisionTimeNs : Int64} (h : exchange.Admitted request market decisionTimeNs) :
    (exchange.submit request decisionTimeNs).1 =
      (exchange.store (exchange.place request decisionTimeNs) market).1 := by
  unfold submit
  simp [h.unknown, h.configValid, h.heard, h.passes]

theorem stores_iff {request : OrderRequest} {decisionTimeNs : Int64} :
    exchange.Stores request decisionTimeNs ↔
      ∃ market, exchange.Admitted request market decisionTimeNs := by
  constructor
  · intro h
    rcases submit_cases exchange request decisionTimeNs with he | ⟨market, hadmitted, _⟩
    · exact absurd (congrArg PaperExchange.orders he) h
    · exact ⟨market, hadmitted⟩
  · rintro ⟨market, hadmitted⟩ he
    rw [hadmitted.submit_eq, store_eq] at he
    have hlength := congrArg List.length he
    simp at hlength

theorem findOrder_eq_some {clientOrderId : String} {index : ℕ} {order : PaperOrder}
    (h : exchange.findOrder clientOrderId = some (index, order)) :
    exchange.orderIndex.lookup clientOrderId = some index ∧
      exchange.orders[index]? = some order := by
  unfold findOrder at h
  cases hindex : exchange.orderIndex.lookup clientOrderId with
  | none => simp [hindex] at h
  | some i =>
    cases horder : exchange.orders[i]? with
    | none => simp [hindex, horder] at h
    | some found =>
      obtain ⟨rfl, rfl⟩ : i = index ∧ found = order := by simpa [hindex, horder] using h
      exact ⟨rfl, horder⟩

theorem findOrder_split {clientOrderId : String} {index : ℕ} {order : PaperOrder}
    (h : exchange.findOrder clientOrderId = some (index, order)) :
    ∃ pre post, exchange.orders = pre ++ order :: post ∧ pre.length = index := by
  obtain ⟨hlt, rfl⟩ := List.getElem?_eq_some_iff.mp (findOrder_eq_some h).2
  obtain ⟨pre, post, hsplit, hlength, _⟩ :=
    @List.exists_of_set _ index exchange.orders[index] _ hlt
  exact ⟨pre, post, hsplit, hlength⟩

theorem cancel_cases (exchange : PaperExchange) (clientOrderId : String) (requestTimeNs : Int64) :
    exchange.cancel clientOrderId requestTimeNs = (exchange, false) ∨
      ∃ pre order post, exchange.orders = pre ++ order :: post ∧
        exchange.findOrder clientOrderId = some (pre.length, order) ∧
        order.isLive = true ∧ order.status ≠ .cancelPending ∧
        exchange.cancel clientOrderId requestTimeNs =
          ({ exchange with orders := pre ++ { order with
              status := .cancelPending
              cancelDueTimeNs := some (requestTimeNs + exchange.config.cancellationLatencyNs) } ::
            post }, true) := by
  unfold cancel
  cases hfind : exchange.findOrder clientOrderId with
  | none => exact .inl rfl
  | some found =>
    obtain ⟨index, order⟩ := found
    dsimp only
    split_ifs with hskip
    · exact .inl rfl
    · obtain ⟨hterminal, hpending⟩ := not_or.mp hskip
      obtain ⟨pre, post, hsplit, rfl⟩ := findOrder_split hfind
      refine .inr ⟨pre, order, post, hsplit, rfl, ?_, hpending, ?_⟩
      · simpa [PaperOrder.isLive] using hterminal
      · rw [hsplit, List.set_append_right _ _ le_rfl, Nat.sub_self, List.set_cons_zero]

theorem call_transitions {c : ExchangeCall} (h : Permits heard allow exchange c) :
    ReflTransGen (Transition heard allow) exchange (exchange.call c) := by
  cases c with
  | onMarketEvent event => exact onMarketEvent_transitions h
  | submit request decisionTimeNs =>
    rcases submit_cases exchange request decisionTimeNs with he | ⟨market, hadmitted, he⟩
    · rw [call, he]
    · rw [call, he]
      exact .head (.append _ _ _ _ hadmitted (h ⟨market, hadmitted⟩)) (store_moves hadmitted)
  | cancel clientOrderId requestTimeNs =>
    rcases cancel_cases exchange clientOrderId requestTimeNs with
      he | ⟨pre, order, post, hsplit, _, hlive, _, he⟩
    · rw [call, he]
    · rw [call, he]
      exact .single (.requestCancel _ _ _ _ _ hsplit hlive)

theorem run_transitions {calls : List ExchangeCall}
    (h : AllSteps call (Permits heard allow) exchange calls) :
    ReflTransGen (Transition heard allow) exchange (calls.foldl call exchange) :=
  run_invariant (fun _ _ hs hp => hs.trans (call_transitions hp)) .refl h

end Transitions

theorem run_append (config : PaperExchangeConfig) (before after : List ExchangeCall) :
    run config (before ++ after) = after.foldl call (run config before) :=
  List.foldl_append ..

theorem run_concat (config : PaperExchangeConfig) (calls : List ExchangeCall) (c : ExchangeCall) :
    run config (calls ++ [c]) = (run config calls).call c :=
  run_append config calls [c]

theorem run_invariant_of_transitions {I : PaperExchange → Prop} {config : PaperExchangeConfig}
    (hnew : I (new config))
    (hstep : ∀ {s t}, I s → Transition (fun _ => True) (fun _ _ => True) s t → I t)
    (calls : List ExchangeCall) : I (run config calls) := by
  refine chain_invariant (I := I) hstep hnew
    (run_transitions (AllSteps.of_forall (fun s c => ?_) _ _))
  cases c <;> simp [Permits]

/-- The members that the constructor sets for good. -/
structure Configured (config : PaperExchangeConfig) (exchange : PaperExchange) : Prop where
  config_eq : exchange.config = config
  risk_eq : exchange.risk = { limits := config.risk, ledgerConfig := config.ledger }
  configValid_eq : exchange.configValid = validConfig config

theorem Configured.transition {heard : MarketEvent → Prop}
    {allow : PaperExchange → OrderRequest → Prop} {config : PaperExchangeConfig}
    {s t : PaperExchange} (h : Configured config s) (hstep : Transition heard allow s t) :
    Configured config t := by
  cases hstep <;> exact ⟨h.config_eq, h.risk_eq, h.configValid_eq⟩

theorem configured_run (config : PaperExchangeConfig) (calls : List ExchangeCall) :
    Configured config (run config calls) :=
  run_invariant_of_transitions ⟨rfl, rfl, rfl⟩ (fun h hstep => h.transition hstep) calls

theorem validConfig_of_run {config : PaperExchangeConfig} {calls : List ExchangeCall}
    (h : (run config calls).configValid = true) : validConfig config = true := by
  rw [← (configured_run config calls).configValid_eq]
  exact h

theorem run_of_invalid {config : PaperExchangeConfig} (h : validConfig config = false)
    (calls : List ExchangeCall) :
    (run config calls).toExecutions = (new config).toExecutions ∧
      (run config calls).orders = [] := by
  have hconfig : ∀ {s : PaperExchange}, Configured config s → s.configValid ≠ true := by
    intro s hs
    simp [hs.configValid_eq, h]
  refine (run_invariant_of_transitions (I := fun s => Configured config s ∧
    s.toExecutions = (new config).toExecutions ∧ s.orders = []) ⟨⟨rfl, rfl, rfl⟩, rfl, rfl⟩
    ?_ calls).2
  rintro s t ⟨hs, hbooks, horders⟩ hstep
  refine ⟨hs.transition hstep, ?_⟩
  cases hstep with
  | observe event haccepts => exact ⟨hbooks, horders⟩
  | ignore => exact ⟨hbooks, horders⟩
  | mark priceUnits hvalid => exact absurd hvalid (hconfig hs)
  | move event pre post order moved books _ hsplit => simp [horders] at hsplit
  | append request market decisionTimeNs hadmitted =>
    exact absurd hadmitted.configValid (hconfig hs)
  | requestCancel pre post order due hsplit => simp [horders] at hsplit

end PaperExchange
end Astra
