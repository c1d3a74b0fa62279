import AstraTrader.Features
import AstraTrader.Live.ExchangeClock
import AstraTrader.Live.ModelWorker

/-! The callback that `astra_trader --live` runs on each feed event. It shares the model worker with
the worker's thread, so it is cut where it has submitted to the worker and not yet taken from it. -/

namespace Astra.Live
open Process

def exchangeConfig : PaperExchangeConfig where
  ledger := { initialCashUnits := 1000000, accountScale := 2, priceScale := 2, quantityScale := 3 }
  risk :=
    { maximumOrderQuantityUnits := 10
      maximumOrderNotionalUnits := 25000
      maximumAbsolutePositionUnits := 10
      maximumDataAgeNs := 2000000000
      maximumSpreadPpm := 10000
      maximumDrawdownUnits := 100000 }
  quantityStepUnits := 1
  minimumNotionalUnits := 100
  makerFeePpm := 200
  takerFeePpm := 500
  marketSlippagePpm := 100
  acknowledgementLatencyNs := 0
  cancellationLatencyNs := 5000000

/-- The locals of a callback that is under way. -/
structure Callback where
  event : MarketEvent
  position : Int64
  clock : ExchangeClockState
  deriving DecidableEq

/-- What the callback captures; with `--baseline` there is no worker, and nothing reaches it. -/
structure State where
  exchange : PaperExchange
  featureBuilder : FeatureBuilder
  exchangeClock : ExchangeClock := {}
  modelWorker : ModelWorker := {}
  latestDecision : Option ModelDecision := none
  lastDecisionSequence : UInt64 := 0
  decisions : ℕ := 0
  callback : Option Callback := none
  deriving DecidableEq

def initial : State where
  exchange := .new exchangeConfig
  featureBuilder := .new 100

def baselineDecision (event : MarketEvent) : ModelDecision :=
  if event.askQuantityUnits ≤ event.bidQuantityUnits then
    { action := .longPosition, longProbabilityPpm := 600000, shortProbabilityPpm := 100000
      holdProbabilityPpm := 300000, stateSequence := event.sequence, model := "baseline" }
  else
    { action := .shortPosition, longProbabilityPpm := 100000, shortProbabilityPpm := 600000
      holdProbabilityPpm := 300000, stateSequence := event.sequence, model := "baseline" }

/-- The decision that the callback makes itself with `--baseline`. -/
def produced (useLaya : Bool) (event : MarketEvent) : Option ModelDecision :=
  if useLaya = false ∧ event.sequence % 500 = 0 then some (baselineDecision event) else none

/-- The callback up to `try_take`. -/
def receive (useLaya : Bool) (state : State) (event : MarketEvent) : State :=
  let (exchange, accepted) := state.exchange.onMarketEvent event
  if accepted then
    let position := exchange.ledger.state.positionUnits
    let (exchangeClock, clock) :=
      state.exchangeClock.observe event.exchangeTimeNs event.receiveTimeNs
    let (featureBuilder, modelState) := state.featureBuilder.update event position
    { state with
      exchange
      exchangeClock
      featureBuilder
      modelWorker :=
        if useLaya = true ∧ event.sequence % 1000 = 0 then
          state.modelWorker.submit { modelState with stateAgeNs := clock.adjustedAgeNs }
        else state.modelWorker
      latestDecision := (produced useLaya event).or state.latestDecision
      callback := some { event, position, clock } }
  else { state with exchange }

/-- The decision is newer than the last one acted on, not from the future and not stale. -/
def IsDue (decision : ModelDecision) (event : MarketEvent) (lastDecisionSequence : UInt64) : Prop :=
  lastDecisionSequence < decision.stateSequence ∧ decision.stateSequence ≤ event.sequence ∧
    event.sequence - decision.stateSequence ≤ 2500

instance (decision : ModelDecision) (event : MarketEvent) (lastDecisionSequence : UInt64) :
    Decidable (IsDue decision event lastDecisionSequence) :=
  inferInstanceAs (Decidable (_ ∧ _ ∧ _))

def Permitted (decision : ModelDecision) (clock : ExchangeClockState) : Prop :=
  decision.succeeded = true ∧ decision.action ≠ .hold ∧ 550000 ≤ decision.probabilityPpm ∧
    clock.stable = true

instance (decision : ModelDecision) (clock : ExchangeClockState) :
    Decidable (Permitted decision clock) := inferInstanceAs (Decidable (_ ∧ _))

/-- The position that a decision other than to hold asks for. -/
def wanted (action : ModelAction) : Int64 := if action = .longPosition then 1 else -1

def clientOrderId (sequence : UInt64) : String := "paper-live-" ++ toString sequence

def orderFor (event : MarketEvent) (delta : Int64) : OrderRequest where
  clientOrderId := clientOrderId event.sequence
  side := if 0 < delta then .buy else .sell
  type := .market
  quantityUnits := if 0 < delta then delta else -delta
  createdTimeNs := event.receiveTimeNs

/-- What the callback does with a decision it acts on. -/
def execute (exchange : PaperExchange) (callback : Callback) (decision : ModelDecision) :
    PaperExchange × Option (OrderRequest × SubmitResult) :=
  let delta := wanted decision.action - callback.position
  if Permitted decision callback.clock ∧ delta ≠ 0 then
    let request := orderFor callback.event delta
    let (exchange, result) := exchange.submit request callback.event.receiveTimeNs
    (exchange, some (request, result))
  else (exchange, none)

/-- How a callback ends: what it took from the worker, the decision it acted on, what it sent. -/
structure Ending where
  state : State
  taken : Option ModelDecision
  acted : Option ModelDecision := none
  sent : Option (OrderRequest × SubmitResult) := none

/-- The callback from `try_take` on. -/
def finish (useLaya : Bool) (state : State) (callback : Callback) : Ending :=
  let (modelWorker, taken) :=
    if useLaya then state.modelWorker.tryTake else (state.modelWorker, none)
  let latestDecision := taken.or state.latestDecision
  let state := { state with modelWorker, latestDecision, callback := none }
  match latestDecision with
  | none => { state, taken }
  | some decision =>
    if IsDue decision callback.event state.lastDecisionSequence then
      let (exchange, sent) := execute state.exchange callback decision
      { state := { state with
          exchange
          lastDecisionSequence := decision.stateSequence
          decisions := state.decisions + 1 }
        taken
        acted := some decision
        sent }
    else { state, taken }

/-- A step of either thread, with what it did. -/
inductive LiveEvent
  | ignored (event : MarketEvent)
  | received (event : MarketEvent)
  | worked (step : WorkerEvent)
  | finished (event : MarketEvent) (taken acted : Option ModelDecision)
      (sent : Option (OrderRequest × SubmitResult))

/-- Any feed, any answers of the model, any interleaving with the worker's thread. -/
inductive Step (answers : ModelState → Outcome → Prop) (useLaya : Bool) :
    State → LiveEvent → State → Prop
  | ignored (state : State) (event : MarketEvent) : state.callback = none →
      ¬ state.exchange.accepts event →
      Step answers useLaya state (.ignored event) (receive useLaya state event)
  | received (state : State) (event : MarketEvent) : state.callback = none →
      state.exchange.accepts event →
      Step answers useLaya state (.received event) (receive useLaya state event)
  | worked (state : State) (event : WorkerEvent) (worker : ModelWorker) :
      event.taken?.isSome = true ∨ event.published?.isSome = true →
      ModelWorker.Step answers state.modelWorker event worker →
      Step answers useLaya state (.worked event) { state with modelWorker := worker }
  | finished (state : State) (callback : Callback) : state.callback = some callback →
      Step answers useLaya state
        (.finished callback.event (finish useLaya state callback).taken
          (finish useLaya state callback).acted (finish useLaya state callback).sent)
        (finish useLaya state callback).state

end Astra.Live
