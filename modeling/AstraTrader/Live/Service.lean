import AstraTrader.Live.AuditWriter
import AstraTrader.Live.Gating
import AstraTrader.Live.PublicFeed
import AstraTrader.Live.Status
import AstraTrader.Process.Simulation

/-! `astra_trader --live` as a whole: the thread of the feed, cut wherever it touches what another
thread touches, the threads of the model worker, of the audit and of the status server. With its
cuts the callback is still the one of the live loop. -/

namespace Astra.Live
open Process

/-- The callback as far as `try_take`. -/
def take (useLaya : Bool) (state : State) : State × Option ModelDecision :=
  let (modelWorker, taken) :=
    if useLaya then state.modelWorker.tryTake else (state.modelWorker, none)
  ({ state with modelWorker, latestDecision := taken.or state.latestDecision }, taken)

structure Action where
  state : State
  acted : Option ModelDecision := none
  sent : Option (OrderRequest × SubmitResult) := none

/-- The callback behind the status. -/
def act (state : State) (callback : Callback) : Action :=
  let state := { state with callback := none }
  match state.latestDecision with
  | none => { state }
  | some decision =>
    if IsDue decision callback.event state.lastDecisionSequence then
      let (exchange, sent) := execute state.exchange callback decision
      { state := { state with
          exchange
          lastDecisionSequence := decision.stateSequence
          decisions := state.decisions + 1 }
        acted := some decision
        sent }
    else { state }

/-- Where the thread of the feed stands. -/
inductive Stage
  | waiting
  | heard
  -- with a decision for the audit
  | deciding (made : ModelDecision)
  | decided
  -- with a status that is put together and not yet published
  | showing (report : StatusReport)
  | shown
  -- with an order for the audit
  | recording (record : AuditRecord)

instance (stage : Stage) : Decidable (stage = .waiting) :=
  match stage with
  | .waiting => isTrue rfl
  | .heard | .deciding _ | .decided | .showing _ | .shown | .recording _ => isFalse nofun

structure Service where
  feed : PublicFeed.FeedState := {}
  live : State := initial
  stage : Stage := .waiting
  status : StatusStore := {}
  audit : AuditWriter := {}
  returned : Bool := false

/-- The event that the feed hands out on an arrival. -/
def handed (config : PublicFeed.BinancePublicFeedConfig) (feed : PublicFeed.FeedState) :
    PublicFeed.Arrival → Option MarketEvent
  | .message (some (.object document)) receiveTimeNs =>
    match (PublicFeed.decode config (feed.sequence + 1) receiveTimeNs document feed.book).1 with
    | .ok event => if PublicFeed.HandsOut event then some event else none
    | .error _ => none
  | _ => none

inductive ServiceEvent
  | quiet (arrival : PublicFeed.Arrival)
  | ignored (arrival : PublicFeed.Arrival) (event : MarketEvent)
  | heard (arrival : PublicFeed.Arrival) (event : MarketEvent)
  | took (taken : Option ModelDecision)
  | recorded (record : AuditRecord) (accepted : Bool)
  | composed (report : StatusReport)
  | published (report : StatusReport)
  | acted (event : MarketEvent) (decision : Option ModelDecision)
      (sent : Option (OrderRequest × SubmitResult)) (positionUnits : Int64)
  | returned
  | worked (event : WorkerEvent)
  | wrote (event : WriterEvent)
  | served (request : StatusRequest) (response : StatusResponse)

namespace Service

/-- The default of the writer's constructor. -/
def auditCapacity : ℕ := 4096

def report (useLaya : Bool) (service : Service) (callback : Callback) : StatusReport where
  event := callback.event
  exchange := service.live.exchange
  decision := service.live.latestDecision
  coalescedRequests := if useLaya then service.live.modelWorker.coalescedRequests else 0
  clock := callback.clock
  healthy := service.audit.healthy
  droppedEvents := service.audit.droppedEvents

/-- A callback goes on to the audit with the decision that it took or made. -/
def afterTake (made : Option ModelDecision) : Stage :=
  match made with
  | some made => .deciding made
  | none => .decided

/-- It ends, but for the line about an order that it sent. -/
def afterAct (callback : Callback) (action : Action) : Stage :=
  match action.sent with
  | some order => .recording (.order callback.event.sequence order.2
      action.state.exchange.ledger.state.positionUnits)
  | none => .waiting

/-- Any feed, any answers of the model, any requests, any failures of the stream of the audit, and
any interleaving of the four threads. -/
inductive Step (answers : ModelState → Outcome → Prop) (useLaya : Bool)
    (config : PublicFeed.BinancePublicFeedConfig) : Service → ServiceEvent → Service → Prop
  | quiet (service : Service) (arrival : PublicFeed.Arrival) : service.stage = .waiting →
      service.returned = false → handed config service.feed arrival = none →
      Step answers useLaya config service (.quiet arrival)
        { service with feed := PublicFeed.feedStep config service.feed arrival }
  | ignored (service : Service) (arrival : PublicFeed.Arrival) (event : MarketEvent) :
      service.stage = .waiting → service.returned = false →
      handed config service.feed arrival = some event → ¬ service.live.exchange.accepts event →
      Step answers useLaya config service (.ignored arrival event)
        { service with
          feed := PublicFeed.feedStep config service.feed arrival
          live := receive useLaya service.live event }
  | heard (service : Service) (arrival : PublicFeed.Arrival) (event : MarketEvent) :
      service.stage = .waiting → service.returned = false →
      handed config service.feed arrival = some event → service.live.exchange.accepts event →
      Step answers useLaya config service (.heard arrival event)
        { service with
          feed := PublicFeed.feedStep config service.feed arrival
          live := receive useLaya service.live event
          stage := .heard }
  | took (service : Service) (callback : Callback) : service.stage = .heard →
      service.live.callback = some callback →
      Step answers useLaya config service (.took (take useLaya service.live).2)
        { service with
          live := (take useLaya service.live).1
          stage := afterTake ((take useLaya service.live).2.or (produced useLaya callback.event)) }
  | decision (service : Service) (made : ModelDecision) : service.stage = .deciding made →
      Step answers useLaya config service
        (.recorded (.decision made) (!service.audit.refuses auditCapacity))
        { service with
          audit := service.audit.append auditCapacity (AuditRecord.decision made).line
          stage := .decided }
  | composed (service : Service) (callback : Callback) : service.stage = .decided →
      service.live.callback = some callback → callback.event.sequence % 100 = 0 →
      Step answers useLaya config service (.composed (service.report useLaya callback))
        { service with stage := .showing (service.report useLaya callback) }
  | published (service : Service) (report : StatusReport) : service.stage = .showing report →
      Step answers useLaya config service (.published report)
        { service with
          status := service.status.publish report.event.sequence report.json
          stage := .shown }
  | acted (service : Service) (callback : Callback) :
      service.stage = .shown ∨ service.stage = .decided ∧ callback.event.sequence % 100 ≠ 0 →
      service.live.callback = some callback →
      Step answers useLaya config service
        (.acted callback.event (act service.live callback).acted (act service.live callback).sent
          (act service.live callback).state.exchange.ledger.state.positionUnits)
        { service with
          live := (act service.live callback).state
          stage := afterAct callback (act service.live callback) }
  | order (service : Service) (record : AuditRecord) : service.stage = .recording record →
      Step answers useLaya config service
        (.recorded record (!service.audit.refuses auditCapacity))
        { service with
          audit := service.audit.append auditCapacity record.line
          stage := .waiting }
  | returned (service : Service) : service.stage = .waiting →
      Step answers useLaya config service .returned { service with returned := true }
  | worked (service : Service) (event : WorkerEvent) (worker : ModelWorker) :
      event.taken?.isSome = true ∨ event.published?.isSome = true →
      ModelWorker.Step answers service.live.modelWorker event worker →
      Step answers useLaya config service (.worked event)
        { service with live := { service.live with modelWorker := worker } }
  -- the audit is taken down once the feed has returned
  | wrote (service : Service) (event : WriterEvent) (audit : AuditWriter) :
      event.appended? = none → (event = .stop ∨ event = .join → service.returned = true) →
      AuditWriter.Step auditCapacity service.audit event audit →
      Step answers useLaya config service (.wrote event) { service with audit }
  | served (service : Service) (request : StatusRequest) :
      Step answers useLaya config service
        (.served request (respond service.status request)) service

end Service

namespace Stage

/-- The callback has its locals. -/
def busy : Stage → Bool
  | .waiting | .recording _ => false
  | _ => true

/-- It has taken what there was from the worker and not yet acted. -/
def ahead : Stage → Bool
  | .waiting | .heard | .recording _ => false
  | _ => true

end Stage

namespace ServiceEvent

def heard? : ServiceEvent → Option MarketEvent
  | .heard _ event => some event
  | _ => none

def arrival? : ServiceEvent → Option PublicFeed.Arrival
  | .quiet arrival | .ignored arrival _ | .heard arrival _ => some arrival
  | _ => none

def delivered? (useLaya : Bool) : ServiceEvent → Option ModelDecision
  | .heard _ event => produced useLaya event
  | .took taken => taken
  | _ => none

def sentCalls (event : MarketEvent) (sent : Option (OrderRequest × SubmitResult)) :
    List ExchangeCall := sent.toList.map fun order => .submit order.1 event.receiveTimeNs

def exchangeCalls : ServiceEvent → List ExchangeCall
  | .ignored _ event | .heard _ event => [.onMarketEvent event]
  | .acted event _ sent _ => sentCalls event sent
  | _ => []

end ServiceEvent

namespace Service

def heard (events : List ServiceEvent) : List MarketEvent := events.filterMap ServiceEvent.heard?

def delivered (useLaya : Bool) (events : List ServiceEvent) : List ModelDecision :=
  events.filterMap (ServiceEvent.delivered? useLaya)

def exchangeCalls (events : List ServiceEvent) : List ExchangeCall :=
  events.flatMap ServiceEvent.exchangeCalls

/-- The live loop that the service stands for: what a callback has taken, it has acted on. -/
def view (service : Service) : State :=
  match service.live.callback with
  | some callback =>
    if service.stage.ahead then (act service.live callback).state else service.live
  | none => service.live

/-- The order that is still to be sent. -/
def pendingCalls (service : Service) : List ExchangeCall :=
  match service.live.callback with
  | some callback =>
    if service.stage.ahead then
      ServiceEvent.sentCalls callback.event (act service.live callback).sent
    else []
  | none => []

end Service
end Astra.Live
