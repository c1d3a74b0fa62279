import AstraTrader.Risk
import AstraTrader.Process.Sweep

/-! `PaperExchange` of `paper_exchange.cpp`. The loops over `orders_` are sweeps; what a fill
writes outside its order is kept together as `Executions`. -/

namespace Astra
open FixedWidth

def partsPerMillion : UInt32 := 1000000

def calculateNotional (priceUnits quantityUnits : Int64) (config : LedgerConfig) :
    Option Int64 :=
  narrow (accountUnits config (wide priceUnits * magnitude quantityUnits))

/-- Parts of a price or a notional, rounded up: the fee and the slip. -/
def roundedParts (units : Int64) (ppm : UInt32) : Wide :=
  let product := wide units * wide32 ppm
  if product = 0 then 0 else (product - 1) / wide32 partsPerMillion + 1

def feeFor (notionalUnits : Int64) (feePpm : UInt32) : Option Int64 :=
  narrow (roundedParts notionalUnits feePpm)

def slippedPrice (priceUnits : Int64) (side : Side) (slippagePpm : UInt32) : Option Int64 :=
  let slip := roundedParts priceUnits slippagePpm
  let price := match side with
    | .buy => wide priceUnits + slip
    | .sell => wide priceUnits - slip
  if price ≤ 0 then none else narrow price

def isTerminal (status : OrderStatus) : Bool :=
  status = .filled || status = .cancelled || status = .rejected

structure PaperExchangeConfig where
  ledger : LedgerConfig
  risk : RiskLimits := {}
  quantityStepUnits : Int64 := 1
  minimumNotionalUnits : Int64 := 0
  makerFeePpm : UInt32 := 0
  takerFeePpm : UInt32 := 0
  marketSlippagePpm : UInt32 := 0
  acknowledgementLatencyNs : Int64 := 0
  cancellationLatencyNs : Int64 := 0
  deriving DecidableEq

structure SubmitResult where
  orderId : ℕ := 0
  status : OrderStatus := .rejected
  duplicate : Bool := false
  reason : String := ""
  deriving DecidableEq

/-- The members that `fill` writes besides the order it fills. -/
structure Executions where
  ledger : PerpetualLedger
  fills : List PaperFill := []
  nextFillId : ℕ := 1
  deriving DecidableEq

structure PaperExchange extends Executions where
  config : PaperExchangeConfig
  risk : RiskEngine
  market : Option MarketEvent := none
  orders : List PaperOrder := []
  orderIndex : List (String × ℕ) := []
  nextOrderId : ℕ := 1
  ignoredMarketEvents : ℕ := 0
  configValid : Bool
  deriving DecidableEq

namespace PaperOrder

def isLive (order : PaperOrder) : Bool := !isTerminal order.status

def reject (order : PaperOrder) (reason : String) : PaperOrder :=
  { order with status := .rejected, rejectReason := reason }

/-- `submit` stores no limit or post-only order without a price. -/
def limit (order : PaperOrder) : Int64 := order.request.limitPriceUnits.getD 0

def crosses (order : PaperOrder) (event : MarketEvent) : Bool :=
  match order.request.side with
  | .buy => event.bestAskUnits ≤ order.limit
  | .sell => order.limit ≤ event.bestBidUnits

/-- The end of `activate`: an order at the touch of its own side joins the queue. -/
def rest (order : PaperOrder) (event : MarketEvent) : PaperOrder :=
  { order with
    queueAheadUnits :=
      if order.request.side = .buy ∧ order.limit = event.bestBidUnits then event.bidQuantityUnits
      else if order.request.side = .sell ∧ order.limit = event.bestAskUnits then
        event.askQuantityUnits
      else order.queueAheadUnits
    status := if order.status = .cancelPending then .cancelPending else .open }

def take (order : PaperOrder) (quantity : Int64) : PaperOrder :=
  let remaining := order.remainingQuantityUnits - quantity
  { order with
    remainingQuantityUnits := remaining
    filledQuantityUnits := order.filledQuantityUnits + quantity
    -- written over whatever it was, a pending cancel included
    status := if remaining = 0 then .filled else .partiallyFilled }

/-- The tests of `match_trade` that send an order on to its queue. -/
def meetsTrade (order : PaperOrder) (event : MarketEvent) (tradePriceUnits : Int64)
    (aggressorSide : Side) : Prop :=
  (order.status = .open ∨ order.status = .partiallyFilled ∨ order.status = .cancelPending) ∧
  order.activeTimeNs ≤ event.receiveTimeNs ∧ order.request.type ≠ .market ∧
  aggressorSide ≠ order.request.side ∧
  match order.request.side with
  | .buy => tradePriceUnits ≤ order.limit
  | .sell => order.limit ≤ tradePriceUnits

instance (order : PaperOrder) (event : MarketEvent) (tradePriceUnits : Int64)
    (aggressorSide : Side) : Decidable (order.meetsTrade event tradePriceUnits aggressorSide) := by
  unfold meetsTrade
  cases order.request.side <;> infer_instance

end PaperOrder

namespace Executions

def fillFee (config : PaperExchangeConfig) (priceUnits quantity : Int64) (maker : Bool) :
    Option Int64 := do
  let notional ← calculateNotional priceUnits quantity config.ledger
  feeFor notional (if maker then config.makerFeePpm else config.takerFeePpm)

def record (books : Executions) (order : PaperOrder) (quantity priceUnits fee : Int64)
    (realizedPnlUnits : Int64) (maker : Bool) (event : MarketEvent) : Executions :=
  { books with
    fills := books.fills ++ [{
      fillId := books.nextFillId
      orderId := order.orderId
      clientOrderId := order.request.clientOrderId
      marketSequence := event.sequence
      exchangeTimeNs := event.exchangeTimeNs
      side := order.request.side
      quantityUnits := quantity
      priceUnits
      feeUnits := fee
      realizedPnlUnits
      maker }]
    nextFillId := books.nextFillId + 1 }

def fill (config : PaperExchangeConfig) (books : Executions) (order : PaperOrder)
    (quantityUnits priceUnits : Int64) (maker : Bool) (event : MarketEvent) :
    Executions × PaperOrder :=
  let quantity := min quantityUnits order.remainingQuantityUnits
  if quantity ≤ 0 then (books, order)
  else match fillFee config priceUnits quantity maker with
  | none => (books, order.reject "fill_arithmetic_overflow")
  | some fee =>
    let (ledger, mutation) := books.ledger.applyFill
      (signedQuantity order.request.side quantity) priceUnits fee
    let books := { books with ledger }
    if mutation.succeeded then
      (books.record order quantity priceUnits fee mutation.realizedPnlUnits maker event,
        order.take quantity)
    else (books, order.reject mutation.error.toString)

def activate (config : PaperExchangeConfig) (event : MarketEvent) (books : Executions)
    (order : PaperOrder) : Executions × PaperOrder :=
  let touch := event.touch order.request.side
  if isTerminal order.status ∨ event.receiveTimeNs < order.activeTimeNs then (books, order)
  else if order.request.type = .market then
    match slippedPrice touch order.request.side config.marketSlippagePpm with
    | none => (books, order.reject "invalid_slipped_price")
    | some price => fill config books order order.remainingQuantityUnits price false event
  else if order.request.type = .postOnly ∧ order.crosses event then
    (books, order.reject "post_only_would_cross")
  else if order.crosses event then
    -- at the touch, which is no worse than the limit
    fill config books order order.remainingQuantityUnits touch false event
  else (books, order.rest event)

/-- The activation loop of `on_market_event`. -/
def activateDue (config : PaperExchangeConfig) (event : MarketEvent) (books : Executions)
    (order : PaperOrder) : Executions × PaperOrder :=
  if (order.status = .pending ∨ order.status = .cancelPending) ∧
      order.activeTimeNs ≤ event.receiveTimeNs then activate config event books order
  else (books, order)

/-- The loop of `match_trade`, which threads what is left of the trade; once nothing is
left, `break` leaves the other orders alone. -/
def matchOrder (config : PaperExchangeConfig) (event : MarketEvent) (tradePriceUnits : Int64)
    (aggressorSide : Side) (pass : Executions × Int64) (order : PaperOrder) :
    (Executions × Int64) × PaperOrder :=
  let (books, available) := pass
  if available ≤ 0 then (pass, order)
  else if order.meetsTrade event tradePriceUnits aggressorSide then
    let aheadConsumed := min order.queueAheadUnits available
    let order := { order with queueAheadUnits := order.queueAheadUnits - aheadConsumed }
    let available := available - aheadConsumed
    if available ≤ 0 then ((books, available), order)
    else
      let fillQuantity := min order.remainingQuantityUnits available
      let (books, order) := fill config books order fillQuantity order.limit true event
      ((books, available - fillQuantity), order)
  else (pass, order)

end Executions

/-- The loop of `apply_due_cancels`. -/
def PaperOrder.applyDueCancel (event : MarketEvent) (order : PaperOrder) : PaperOrder :=
  match order.cancelDueTimeNs with
  | some due =>
    if order.status = .cancelPending ∧ due ≤ event.receiveTimeNs then
      { order with status := .cancelled, remainingQuantityUnits := 0 }
    else order
  | none => order

namespace PaperExchange
open Process

def validConfig (config : PaperExchangeConfig) : Bool :=
  (PerpetualLedger.new config.ledger).configError = .ok &&
    0 < config.quantityStepUnits && 0 ≤ config.minimumNotionalUnits &&
    config.makerFeePpm ≤ partsPerMillion && config.takerFeePpm ≤ partsPerMillion &&
    config.marketSlippagePpm ≤ partsPerMillion && 0 ≤ config.acknowledgementLatencyNs &&
    0 ≤ config.cancellationLatencyNs

def new (config : PaperExchangeConfig) : PaperExchange where
  config
  ledger := .new config.ledger
  risk := { limits := config.risk, ledgerConfig := config.ledger }
  configValid := validConfig config

def findOrder (exchange : PaperExchange) (clientOrderId : String) : Option (ℕ × PaperOrder) := do
  let index ← exchange.orderIndex.lookup clientOrderId
  let order ← exchange.orders[index]?
  return (index, order)

/-- `unordered_map::emplace`. -/
def emplace (index : List (String × ℕ)) (key : String) (value : ℕ) : List (String × ℕ) :=
  if (index.lookup key).isSome then index else index ++ [(key, value)]

def activateOrders (exchange : PaperExchange) (event : MarketEvent) : PaperExchange :=
  let (books, orders) := sweep (Executions.activateDue exchange.config event)
    exchange.toExecutions exchange.orders
  { exchange with toExecutions := books, orders }

def matchTrade (exchange : PaperExchange) (event : MarketEvent) : PaperExchange :=
  match event.tradePriceUnits, event.aggressorSide with
  | some tradePriceUnits, some aggressorSide =>
    if event.tradeQuantityUnits ≤ 0 then exchange
    else
      let (pass, orders) := sweep
        (Executions.matchOrder exchange.config event tradePriceUnits aggressorSide)
        (exchange.toExecutions, event.tradeQuantityUnits) exchange.orders
      { exchange with toExecutions := pass.1, orders }
  | _, _ => exchange

def applyDueCancels (exchange : PaperExchange) (event : MarketEvent) : PaperExchange :=
  { exchange with orders := exchange.orders.map (PaperOrder.applyDueCancel event) }

/-- The checks on an event, which also order events by sequence. -/
def accepts (exchange : PaperExchange) (event : MarketEvent) : Prop :=
  exchange.configValid = true ∧ event.sequence ≠ 0 ∧
  (∀ market ∈ exchange.market, market.sequence < event.sequence) ∧
  0 < event.exchangeTimeNs ∧ event.exchangeTimeNs ≤ event.receiveTimeNs ∧
  0 < event.bestBidUnits ∧ event.bestBidUnits ≤ event.bestAskUnits

instance (exchange : PaperExchange) (event : MarketEvent) :
    Decidable (exchange.accepts event) := inferInstanceAs (Decidable (_ ∧ _))

def midpoint (event : MarketEvent) : Int64 :=
  event.bestBidUnits + (event.bestAskUnits - event.bestBidUnits) / 2

def markToMarket (exchange : PaperExchange) (priceUnits : Int64) : PaperExchange :=
  { exchange with ledger := (exchange.ledger.markToMarket priceUnits).1 }

def onMarketEvent (exchange : PaperExchange) (event : MarketEvent) : PaperExchange × Bool :=
  if exchange.accepts event then
    let exchange := { exchange with market := some event }
    let exchange := exchange.activateOrders event
    let exchange := exchange.matchTrade event
    -- a cancel that is due has let this event's activations and fills go first
    let exchange := exchange.applyDueCancels event
    (exchange.markToMarket (midpoint event), true)
  else ({ exchange with ignoredMarketEvents := exchange.ignoredMarketEvents + 1 }, false)

/-- The quantity of a request cut down to whole steps. -/
def normalized (config : PaperExchangeConfig) (request : OrderRequest) : OrderRequest :=
  { request with
    quantityUnits := request.quantityUnits / config.quantityStepUnits * config.quantityStepUnits }

/-- The first check that refuses a new request, with the text that `submit` reports. -/
def refusal (exchange : PaperExchange) (request : OrderRequest) (market : MarketEvent)
    (decisionTimeNs : Int64) : Option String :=
  let config := exchange.config
  if request.clientOrderId = "" then some "empty_client_order_id"
  else if request.type ≠ .market ∧ request.limitPriceUnits.getD 0 ≤ 0 then
    some "invalid_limit_price"
  else
    -- the engine is shown the quantity as requested, and no other order
    let risk := exchange.risk.evaluate request market exchange.ledger.state decisionTimeNs
    if risk ≠ .accept then some risk.toString
    else
      let normalized := normalized config request
      if normalized.quantityUnits ≤ 0 then some "quantity_below_step"
      else
        match calculateNotional (RiskEngine.referencePrice normalized market)
          normalized.quantityUnits config.ledger with
        | none => some "notional_overflow"
        | some notional =>
          if notional < config.minimumNotionalUnits then some "minimum_notional" else none

def place (exchange : PaperExchange) (request : OrderRequest) (decisionTimeNs : Int64) :
    PaperOrder :=
  let request := normalized exchange.config request
  { orderId := exchange.nextOrderId
    request
    remainingQuantityUnits := request.quantityUnits
    activeTimeNs := decisionTimeNs + exchange.config.acknowledgementLatencyNs }

/-- `submit` appends the order; without latency it activates it against the last event. -/
def store (exchange : PaperExchange) (order : PaperOrder) (market : MarketEvent) :
    PaperExchange × PaperOrder :=
  let (books, stored) :=
    if exchange.config.acknowledgementLatencyNs = 0 then
      Executions.activate exchange.config market exchange.toExecutions order
    else (exchange.toExecutions, order)
  ({ exchange with
      toExecutions := books
      orders := exchange.orders ++ [stored]
      orderIndex := emplace exchange.orderIndex order.request.clientOrderId exchange.orders.length
      nextOrderId := exchange.nextOrderId + 1 }, stored)

def submit (exchange : PaperExchange) (request : OrderRequest) (decisionTimeNs : Int64) :
    PaperExchange × SubmitResult :=
  match exchange.findOrder request.clientOrderId with
  | some (_, existing) =>
    (exchange, { orderId := existing.orderId, status := existing.status, duplicate := true
                 reason := "duplicate_client_order_id" })
  | none =>
    if ¬ exchange.configValid then (exchange, { reason := "invalid_configuration" })
    else match exchange.market with
    | none => (exchange, { reason := "market_unavailable" })
    | some market =>
      match exchange.refusal request market decisionTimeNs with
      | some reason => (exchange, { reason })
      | none =>
        let (exchange, stored) := exchange.store (exchange.place request decisionTimeNs) market
        (exchange, { orderId := stored.orderId, status := stored.status
                     reason := stored.rejectReason })

def cancel (exchange : PaperExchange) (clientOrderId : String) (requestTimeNs : Int64) :
    PaperExchange × Bool :=
  match exchange.findOrder clientOrderId with
  | none => (exchange, false)
  | some (index, order) =>
    if isTerminal order.status ∨ order.status = .cancelPending then (exchange, false)
    else
      let order := { order with
        status := .cancelPending
        cancelDueTimeNs := some (requestTimeNs + exchange.config.cancellationLatencyNs) }
      ({ exchange with orders := exchange.orders.set index order }, true)

end PaperExchange

/-! Runs. -/

inductive ExchangeCall
  | onMarketEvent (event : MarketEvent)
  | submit (request : OrderRequest) (decisionTimeNs : Int64)
  | cancel (clientOrderId : String) (requestTimeNs : Int64)

namespace PaperExchange

def call (exchange : PaperExchange) : ExchangeCall → PaperExchange
  | .onMarketEvent event => (exchange.onMarketEvent event).1
  | .submit request decisionTimeNs => (exchange.submit request decisionTimeNs).1
  | .cancel clientOrderId requestTimeNs => (exchange.cancel clientOrderId requestTimeNs).1

def run (config : PaperExchangeConfig) (calls : List ExchangeCall) : PaperExchange :=
  calls.foldl call (new config)

end PaperExchange
end Astra
