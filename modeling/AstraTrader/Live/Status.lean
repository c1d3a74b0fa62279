import AstraTrader.Live.Loop
import AstraTrader.Replay.Output
import AstraTrader.Text.Breaks

/-! What `astra_trader --live` lets out: the lines of the audit, and the status document that the
`StatusServer` answers with. -/

namespace Astra.Live
open Text
open Replay (unescaped_actionText)

def orderStatusText : OrderStatus → String
  | .pending => "pending"
  | .open => "open"
  | .partiallyFilled => "partially_filled"
  | .filled => "filled"
  | .cancelPending => "cancel_pending"
  | .cancelled => "cancelled"
  | .rejected => "rejected"

/-- What a line of the audit is about. -/
inductive AuditRecord
  | decision (made : ModelDecision)
  | order (sequence : UInt64) (result : SubmitResult) (positionUnits : Int64)

/-- `decision_audit_json`, and the line that is put together behind `submit`. -/
def AuditRecord.members : AuditRecord → List (String × Field)
  | .decision made =>
    [("schema", .raw "astra.audit.v1".toList),
      ("event", .raw "decision".toList),
      ("sequence", .integer made.stateSequence.toNat),
      ("action", .raw (LayaGateway.actionText made.action).toList),
      ("long_probability_ppm", .integer made.longProbabilityPpm.toNat),
      ("short_probability_ppm", .integer made.shortProbabilityPpm.toNat),
      ("hold_probability_ppm", .integer made.holdProbabilityPpm.toNat),
      ("latency_ns", .integer made.latencyNs.toInt),
      ("succeeded", .bool made.succeeded)]
  | .order sequence result positionUnits =>
    [("schema", .raw "astra.audit.v1".toList),
      ("event", .raw "order".toList),
      ("sequence", .integer sequence.toNat),
      ("order_id", .integer result.orderId),
      ("status", .raw (orderStatusText result.status).toList),
      ("position_units", .integer positionUnits.toInt)]

def AuditRecord.line (record : AuditRecord) : String := .ofList (writeObject record.members)

/-- What `status_json` is given. -/
structure StatusReport where
  event : MarketEvent
  exchange : PaperExchange
  decision : Option ModelDecision
  coalescedRequests : ℕ
  clock : ExchangeClockState
  healthy : Bool
  droppedEvents : ℕ

namespace StatusReport

/-- What is shown of a decision before there is one. -/
def noDecision : ModelDecision where
  action := .hold
  longProbabilityPpm := 0
  shortProbabilityPpm := 0
  holdProbabilityPpm := 1000000
  latencyNs := 0

/-- `status_json`. -/
def members (report : StatusReport) : List (String × Field) :=
  let state := report.exchange.ledger.state
  let decision := report.decision.getD noDecision
  [("schema", .raw "astra.status.v1".toList),
    ("status", .raw "running".toList),
    ("symbol", .raw "BTCUSDT".toList),
    ("sequence", .integer report.event.sequence.toNat),
    ("exchange_time_ns", .integer report.event.exchangeTimeNs.toInt),
    ("receive_time_ns", .integer report.event.receiveTimeNs.toInt),
    ("best_bid_units", .integer report.event.bestBidUnits.toInt),
    ("best_ask_units", .integer report.event.bestAskUnits.toInt),
    ("position_units", .integer state.positionUnits.toInt),
    ("equity_units", .integer state.equityUnits.toInt),
    ("realized_pnl_units", .integer state.realizedPnlUnits.toInt),
    ("unrealized_pnl_units", .integer state.unrealizedPnlUnits.toInt),
    ("fees_units", .integer state.totalFeeUnits.toInt),
    ("orders", .integer report.exchange.orders.length),
    ("fills", .integer report.exchange.fills.length),
    ("model_action", .raw (LayaGateway.actionText decision.action).toList),
    ("long_probability_ppm", .integer decision.longProbabilityPpm.toNat),
    ("short_probability_ppm", .integer decision.shortProbabilityPpm.toNat),
    ("hold_probability_ppm", .integer decision.holdProbabilityPpm.toNat),
    ("model_latency_ns", .integer decision.latencyNs.toInt),
    ("clock_offset_ns", .integer report.clock.offsetNs.toInt),
    ("adjusted_data_age_ns", .integer report.clock.adjustedAgeNs.toInt),
    ("coalesced_model_requests", .integer report.coalescedRequests),
    ("trading_ready", .bool report.clock.stable),
    ("audit_healthy", .bool report.healthy),
    ("audit_dropped_events", .integer report.droppedEvents)]

def json (report : StatusReport) : List Char := writeObject report.members

end StatusReport

def startingMembers : List (String × Field) :=
  [("schema", .raw "astra.status.v1".toList), ("status", .raw "starting".toList)]

structure StatusStore where
  sequence : UInt64 := 0
  json : List Char := writeObject startingMembers

def StatusStore.publish (store : StatusStore) (sequence : UInt64) (json : List Char) :
    StatusStore := if sequence < store.sequence then store else { sequence, json }

structure StatusRequest where
  isGet : Bool
  target : List Char

structure StatusResponse where
  status : ℕ
  contentType : String
  cacheControl : Option String := none
  body : List Char

/-- The answer of `StatusServer::run` to a request that it has read. -/
def respond (store : StatusStore) (request : StatusRequest) : StatusResponse :=
  if request.isGet = false ∨
      request.target ≠ "/api/status".toList ∧ request.target ≠ "/api/events".toList then
    { status := 404, contentType := "application/json"
      body := writeObject [("error", .raw "not_found".toList)] }
  else if request.target = "/api/events".toList then
    { status := 200, contentType := "text/event-stream", cacheControl := some "no-cache"
      body := "event: snapshot\ndata: ".toList ++ store.json ++ "\n\n".toList }
  else { status := 200, contentType := "application/json", body := store.json }

section Reading
variable {record : AuditRecord} {report : StatusReport}

theorem unescaped_orderStatusText (status : OrderStatus) :
    Unescaped (orderStatusText status).toList := by
  cases status <;> decide

theorem AuditRecord.plainKeys (record : AuditRecord) : PlainKeys record.members := by
  cases record
  all_goals
    simp only [PlainKeys, members, List.forall_mem_singleton, List.forall_mem_cons]
    and_intros <;> decide

theorem AuditRecord.verbatim (record : AuditRecord) :
    ∀ entry ∈ record.members, entry.2.Verbatim := by
  have hschema : Unescaped "astra.audit.v1".toList := by decide
  cases record with
  | decision made =>
    have hevent : Unescaped "decision".toList := by decide
    simp only [members, List.forall_mem_cons, Field.Verbatim, true_and]
    exact ⟨hschema, hevent, unescaped_actionText _, List.forall_mem_nil _⟩
  | order sequence result positionUnits =>
    have hevent : Unescaped "order".toList := by decide
    simp only [members, List.forall_mem_cons, Field.Verbatim, true_and]
    exact ⟨hschema, hevent, unescaped_orderStatusText _, List.forall_mem_nil _⟩

theorem StatusReport.plainKeys (report : StatusReport) : PlainKeys report.members := by
  simp only [PlainKeys, members, List.forall_mem_singleton, List.forall_mem_cons]
  and_intros <;> decide

theorem StatusReport.verbatim (report : StatusReport) :
    ∀ entry ∈ report.members, entry.2.Verbatim := by
  have hschema : Unescaped "astra.status.v1".toList := by decide
  have hstatus : Unescaped "running".toList := by decide
  have hsymbol : Unescaped "BTCUSDT".toList := by decide
  simp only [members, List.forall_mem_cons, Field.Verbatim, true_and]
  exact ⟨hschema, hstatus, hsymbol, unescaped_actionText _, List.forall_mem_nil _⟩

theorem AuditRecord.loads_line (record : AuditRecord) :
    loads (record.line.toList ++ ['\n']) = some (nodeOf record.members) := by
  rw [line, String.toList_ofList]
  exact loads_verbatim record.plainKeys record.verbatim rfl

theorem unbroken_actionText (action : ModelAction) :
    Unbroken (LayaGateway.actionText action).toList := by
  cases action <;> decide

theorem AuditRecord.unbroken_line (record : AuditRecord) : Unbroken record.line.toList := by
  have hschema : Unbroken "astra.audit.v1".toList := by decide
  rw [line, String.toList_ofList]
  apply unbroken_writeObject record.plainKeys
  cases record with
  | decision made =>
    have hevent : Unbroken "decision".toList := by decide
    simp only [members, List.forall_mem_cons, Field.All, true_and]
    exact ⟨hschema, hevent, unbroken_actionText _, List.forall_mem_nil _⟩
  | order sequence result positionUnits =>
    have hevent : Unbroken "order".toList := by decide
    have hstatus : ∀ status, Unbroken (orderStatusText status).toList := by
      intro status
      cases status <;> decide
    simp only [members, List.forall_mem_cons, Field.All, true_and]
    exact ⟨hschema, hevent, hstatus _, List.forall_mem_nil _⟩

end Reading
end Astra.Live
