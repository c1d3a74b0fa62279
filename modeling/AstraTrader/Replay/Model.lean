import AstraTrader.Features

/-! The main loop of `astra_replay`: a decision taken at one row becomes an order at the next row
of the window, before the exchange hears that row. -/

namespace Astra.Replay

/-- The decisions of `--decision-tape`, the latest for a sequence first. -/
structure DecisionTape where
  decisions : List (UInt64 × ModelDecision)
  keyed : ∀ entry ∈ decisions, entry.2.stateSequence = entry.1

/-- What comes back from the model server: an answer that parses, or the last error. -/
inductive LayaReply
  | answered (action : ModelAction) (longPpm shortPpm holdPpm : UInt32) (latencyNs : Int64)
      (model : String)
  | failed (latencyNs : Int64) (lastError : String)

/-- `--model`; the replies of a server may depend on anything. -/
inductive Model
  | baseline
  | hold
  | laya (reply : ℕ → ModelState → LayaReply)
  | tape (decisions : DecisionTape)

/-- The options that `parse_options` lets through. -/
structure Options where
  model : Model := .baseline
  decisionEvery : UInt64 := 1000
  startNs : Int64 := 0
  endNs : Int64 := Int64.maxValue
  feedLatencyNs : Int64 := 1000000
  probabilityThresholdPpm : UInt32 := 550000
  takerFeePpm : UInt32 := 500
  marketSlippagePpm : UInt32 := 100
  decisionEvery_pos : 0 < decisionEvery := by decide
  feedLatencyNs_nonneg : 0 ≤ feedLatencyNs := by decide
  takerFeePpm_le : takerFeePpm ≤ 1000000 := by decide
  marketSlippagePpm_le : marketSlippagePpm ≤ 1000000 := by decide

/-- The fields of a row, once they have been read as numbers. -/
structure RowFields where
  sequence : UInt64
  exchangeTimeNs : Int64
  bestBidUnits : Int64
  bestAskUnits : Int64
  bidQuantityUnits : Int64
  askQuantityUnits : Int64
  tradePriceUnits : Int64
  tradeQuantityUnits : Int64
  aggressor : String

def parseAggressor (aggressor : String) : Option (Option Side) :=
  if aggressor = "buy" then some (some .buy)
  else if aggressor = "sell" then some (some .sell)
  else if aggressor = "none" then some none
  else none

/-- The checks of `parse_row`, and the event it builds. -/
def parseRow (feedLatencyNs : Int64) (fields : RowFields) : Option MarketEvent :=
  if fields.sequence = 0 ∨ fields.exchangeTimeNs ≤ 0 ∨ fields.bestBidUnits ≤ 0 ∨
      fields.bestAskUnits < fields.bestBidUnits ∨ fields.bidQuantityUnits < 0 ∨
      fields.askQuantityUnits < 0 ∨ fields.tradePriceUnits < 0 ∨ fields.tradeQuantityUnits < 0 then
    none
  else (parseAggressor fields.aggressor).map fun aggressorSide =>
    { sequence := fields.sequence
      exchangeTimeNs := fields.exchangeTimeNs
      receiveTimeNs := fields.exchangeTimeNs + feedLatencyNs
      bestBidUnits := fields.bestBidUnits
      bestAskUnits := fields.bestAskUnits
      bidQuantityUnits := fields.bidQuantityUnits
      askQuantityUnits := fields.askQuantityUnits
      tradePriceUnits := if 0 < fields.tradePriceUnits then some fields.tradePriceUnits else none
      tradeQuantityUnits := fields.tradeQuantityUnits
      aggressorSide }

def baselineDecision (state : ModelState) : ModelDecision :=
  let threshold := 50000
  if threshold < state.flowImbalancePpm then
    { action := .longPosition, longProbabilityPpm := 700000, shortProbabilityPpm := 100000
      holdProbabilityPpm := 200000, stateSequence := state.sequence, model := "flow-baseline" }
  else if state.flowImbalancePpm < -threshold then
    { action := .shortPosition, longProbabilityPpm := 100000, shortProbabilityPpm := 700000
      holdProbabilityPpm := 200000, stateSequence := state.sequence, model := "flow-baseline" }
  else
    { action := .hold, longProbabilityPpm := 100000, shortProbabilityPpm := 100000
      holdProbabilityPpm := 800000, stateSequence := state.sequence, model := "flow-baseline" }

def holdDecision (sequence : UInt64) : ModelDecision :=
  { action := .hold, holdProbabilityPpm := 1000000, stateSequence := sequence, model := "hold" }

namespace DecisionTape

def find (tape : DecisionTape) (sequence : UInt64) : Option ModelDecision :=
  tape.decisions.lookup sequence

def contains (tape : DecisionTape) (sequence : UInt64) : Bool := (tape.find sequence).isSome

def decide (tape : DecisionTape) (sequence : UInt64) : ModelDecision :=
  match tape.find sequence with
  | some decision => decision
  | none =>
    { holdDecision sequence with
      model := "decision-tape"
      error := "decision tape has no decision for sequence " ++ toString sequence }

end DecisionTape

/-- `LayaGateway::decide`, given what the server did. -/
def layaDecision (state : ModelState) : LayaReply → ModelDecision
  | .answered action longPpm shortPpm holdPpm latencyNs model =>
    { action, longProbabilityPpm := longPpm, shortProbabilityPpm := shortPpm
      holdProbabilityPpm := holdPpm, latencyNs, stateSequence := state.sequence, model }
  | .failed latencyNs lastError =>
    { action := .hold, holdProbabilityPpm := 1000000, latencyNs, stateSequence := state.sequence
      model := "english", error := lastError }

/-- The decision at a state; `count` is the number of decisions before it. -/
def Model.decide (model : Model) (count : ℕ) (state : ModelState) : ModelDecision :=
  match model with
  | .baseline => baselineDecision state
  | .hold => holdDecision state.sequence
  | .laya reply => layaDecision state (reply count state)
  | .tape decisions => decisions.decide state.sequence

def Model.tapeDecision (model : Model) (sequence : UInt64) : Bool :=
  match model with
  | .tape decisions => decisions.contains sequence
  | _ => false

structure PendingDecision where
  decision : ModelDecision
  decisionTimeNs : Int64 := 0
  deriving DecidableEq

structure Metrics where
  events : ℕ := 0
  decisions : ℕ := 0
  signals : ℕ := 0
  acceptedOrders : ℕ := 0
  rejectedOrders : ℕ := 0
  fills : ℕ := 0
  ignoredEvents : ℕ := 0
  initialEquity : Int64 := 0
  finalEquity : Int64 := 0
  peakEquity : Int64 := 0
  maxDrawdown : Int64 := 0
  realizedPnl : Int64 := 0
  unrealizedPnl : Int64 := 0
  fees : Int64 := 0
  grossProfit : Int64 := 0
  grossLoss : Int64 := 0
  deriving DecidableEq

def exchangeConfig (options : Options) : PaperExchangeConfig where
  ledger :=
    { initialCashUnits := 10000000, accountScale := 2, priceScale := 2, quantityScale := 3 }
  risk :=
    { maximumOrderQuantityUnits := 200
      maximumOrderNotionalUnits := 10000000
      maximumAbsolutePositionUnits := 100
      maximumDataAgeNs := 120000000000
      maximumSpreadPpm := 50000
      maximumDrawdownUnits := 5000000 }
  quantityStepUnits := 1
  minimumNotionalUnits := 100
  makerFeePpm := 0
  takerFeePpm := options.takerFeePpm
  marketSlippagePpm := options.marketSlippagePpm
  acknowledgementLatencyNs := 1
  cancellationLatencyNs := 0

/-- The variables of the loop. -/
structure State where
  exchange : PaperExchange
  features : FeatureBuilder
  metrics : Metrics
  pendingDecision : Option PendingDecision := none
  deriving DecidableEq

def initial (options : Options) : State :=
  let exchange := PaperExchange.new (exchangeConfig options)
  let equity := exchange.ledger.state.equityUnits
  { exchange
    features := .new 100
    metrics := { initialEquity := equity, peakEquity := equity } }

def targetUnits : Int64 := 100

/-- The position that an action asks for. -/
def target (action : ModelAction) (position : Int64) : Int64 :=
  match action with
  | .longPosition => targetUnits
  | .shortPosition => -targetUnits
  | .hold => position

def clientOrderId (sequence : UInt64) : String := "replay-" ++ toString sequence

def orderFor (pending : PendingDecision) (delta : Int64) : OrderRequest where
  clientOrderId := clientOrderId pending.decision.stateSequence
  side := if 0 < delta then .buy else .sell
  type := .market
  quantityUnits := if 0 < delta then delta else -delta
  createdTimeNs := pending.decisionTimeNs

/-- The decision of an earlier row is turned into an order, if it asks for one, and dropped. -/
def settlePending (state : State) : State :=
  match state.pendingDecision with
  | none => state
  | some pending =>
    let position := state.exchange.ledger.state.positionUnits
    let delta := target pending.decision.action position - position
    if pending.decision.succeeded = true ∧ delta ≠ 0 then
      let (exchange, result) :=
        state.exchange.submit (orderFor pending delta) pending.decisionTimeNs
      let metrics := { state.metrics with signals := state.metrics.signals + 1 }
      { state with
        exchange
        metrics :=
          if result.status = .rejected then
            { metrics with rejectedOrders := metrics.rejectedOrders + 1 }
          else { metrics with acceptedOrders := metrics.acceptedOrders + 1 }
        pendingDecision := none }
    else { state with pendingDecision := none }

/-- Below the threshold a proposal is held. -/
def gate (options : Options) (decision : ModelDecision) : ModelDecision :=
  if decision.probabilityPpm < options.probabilityThresholdPpm then
    { decision with action := .hold }
  else decision

/-- The rest of a row that the exchange has accepted. -/
def observe (options : Options) (state : State) (event : MarketEvent) : State :=
  let (features, modelState) :=
    state.features.update event state.exchange.ledger.state.positionUnits
  let metrics := { state.metrics with events := state.metrics.events + 1 }
  let equity := state.exchange.ledger.state.equityUnits
  let peakEquity := max metrics.peakEquity equity
  let metrics :=
    { metrics with peakEquity, maxDrawdown := max metrics.maxDrawdown (peakEquity - equity) }
  if event.sequence % options.decisionEvery = 0 ∨
      options.model.tapeDecision event.sequence = true then
    let decision := options.model.decide metrics.decisions modelState
    { state with
      features
      metrics := { metrics with decisions := metrics.decisions + 1 }
      pendingDecision :=
        some { decision := gate options decision, decisionTimeNs := event.receiveTimeNs } }
  else { state with features, metrics }

def hear (options : Options) (state : State) (event : MarketEvent) : State :=
  let (exchange, accepted) := state.exchange.onMarketEvent event
  if accepted then observe options { state with exchange } event
  else
    { state with
      exchange
      metrics := { state.metrics with ignoredEvents := state.metrics.ignoredEvents + 1 } }

def inWindow (options : Options) (event : MarketEvent) : Prop :=
  options.startNs ≤ event.exchangeTimeNs ∧ event.exchangeTimeNs ≤ options.endNs

instance (options : Options) (event : MarketEvent) : Decidable (inWindow options event) :=
  inferInstanceAs (Decidable (_ ∧ _))

/-- One turn of the loop over the rows. -/
def step (options : Options) (state : State) (event : MarketEvent) : State :=
  if inWindow options event then hear options (settlePending state) event else state

def replay (options : Options) (rows : List MarketEvent) : State :=
  rows.foldl (step options) (initial options)

/-- The figures taken once the rows are exhausted. -/
def report (state : State) : Metrics :=
  let ledger := state.exchange.ledger.state
  let fills := state.exchange.fills
  { state.metrics with
    finalEquity := ledger.equityUnits
    realizedPnl := ledger.realizedPnlUnits
    unrealizedPnl := ledger.unrealizedPnlUnits
    fees := ledger.totalFeeUnits
    fills := fills.length
    grossProfit := fills.foldl (fun sum fill =>
      if 0 < fill.realizedPnlUnits then sum + fill.realizedPnlUnits else sum) 0
    grossLoss := fills.foldl (fun sum fill =>
      if fill.realizedPnlUnits < 0 then sum - fill.realizedPnlUnits else sum) 0 }

end Astra.Replay
