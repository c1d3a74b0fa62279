import AstraTrader.Live.Recorded
import AstraTrader.Process.Tally

/-! The audit of `astra_trader --live`: from the callback through the queue of the writer into the
file, and from the file to `load_audit` of `generate_btc_threshold_report.py`. The writer appends to
what earlier sessions have left. -/

namespace Astra.PaperAudit
open Process Text Live

/-- What `load_audit` returns, without the hash of the file and the latencies. -/
structure Telemetry where
  available : Bool
  events : ℕ
  firstSequence : Option Node := none
  lastSequence : Option Node := none
  actions : AList (fun _ : List Char => ℕ) := ∅
  orders : ℕ := 0
  fills : ℕ := 0

/-- The row of a line if it is a decision; a line that is no document is passed over, and one that
is no object ends the program. -/
def decisionRow (line : List Char) : Option (Option Node) :=
  match loads line with
  | none => some none
  | some (.object members) =>
    match (Node.object members).get "event" with
    | some (.string kind) =>
      some (if kind = "decision".toList then some (.object members) else none)
    | _ => some none
  | some _ => none

/-- The key that an action counts under; the writer puts down no other kinds of value. -/
def actionOf (row : Node) : Option (List Char) :=
  match row.get "action" with
  | some (.string value) => some value
  | none => some "unknown".toList
  | some _ => none

/-- `load_audit`; there is no text if there is no file. -/
def loadAudit (text : Option (List Char)) : Option Telemetry :=
  match text with
  | none => some { available := false, events := 0 }
  | some text => do
    let rows ← (fileLines (uniformNewlines text)).mapM decisionRow
    let decisions := rows.reduceOption
    let actions ← decisions.mapM actionOf
    return {
      available := true
      events := decisions.length
      firstSequence := decisions.head?.bind fun row => row.get "sequence"
      lastSequence := decisions.getLast?.bind fun row => row.get "sequence"
      actions := actions.foldl tally ∅ }

/-- The text of a file of such lines. -/
def auditText (file : List String) : List Char := file.flatMap fun line => line.toList ++ ['\n']

def decision? : AuditRecord → Option ModelDecision
  | .decision made => some made
  | .order .. => none

def decisions (records : List AuditRecord) : List ModelDecision := records.filterMap decision?

/-- What there is to be learnt of a log: nothing of its orders. -/
def telemetryOf (records : List AuditRecord) : Telemetry where
  available := true
  events := (decisions records).length
  firstSequence := (decisions records).head?.map fun made => .integer made.stateSequence.toNat
  lastSequence := (decisions records).getLast?.map fun made => .integer made.stateSequence.toNat
  actions := ((decisions records).map fun made =>
    (LayaGateway.actionText made.action).toList).foldl tally ∅

section Reading
variable {records : List AuditRecord}

theorem get_decision (made : ModelDecision) :
    (nodeOf (AuditRecord.decision made).members).get "event" =
        some (.string "decision".toList) ∧
      (nodeOf (AuditRecord.decision made).members).get "sequence" =
        some (.integer made.stateSequence.toNat) ∧
      (nodeOf (AuditRecord.decision made).members).get "action" =
        some (.string (LayaGateway.actionText made.action).toList) := by
  simp [get_nodeOf, AuditRecord.members, Field.node]

theorem get_order (sequence : UInt64) (result : SubmitResult) (positionUnits : Int64) :
    (nodeOf (AuditRecord.order sequence result positionUnits).members).get "event" =
      some (.string "order".toList) := by
  simp [get_nodeOf, AuditRecord.members, Field.node]

theorem decisionRow_line (record : AuditRecord) :
    decisionRow (record.line.toList ++ ['\n']) =
      some ((decision? record).map fun made => nodeOf (AuditRecord.decision made).members) := by
  rw [decisionRow, record.loads_line]
  cases record with
  | decision made =>
    have hevent := (get_decision made).1
    rw [nodeOf] at hevent ⊢
    dsimp only
    rw [hevent]
    rfl
  | order sequence result positionUnits =>
    have hevent := get_order sequence result positionUnits
    have hkind : ¬ "order".toList = "decision".toList := by decide
    rw [nodeOf] at hevent ⊢
    dsimp only
    rw [hevent]
    exact congrArg some (if_neg hkind)

theorem mapM_some_map {α β γ : Type} (f : β → Option γ) (g : α → β) (k : α → γ) (as : List α)
    (h : ∀ a, f (g a) = some (k a)) : (as.map g).mapM f = some (as.map k) := by
  induction as with
  | nil => rfl
  | cons a as ih =>
    rw [List.map_cons, List.mapM_cons, h, ih]
    rfl

theorem loadAudit_records (records : List AuditRecord) :
    loadAudit (some (auditText (records.map AuditRecord.line))) = some (telemetryOf records) := by
  have htext : auditText (records.map AuditRecord.line) =
      (records.map fun record => record.line.toList).flatMap fun line => line ++ ['\n'] := by
    rw [auditText, List.flatMap_map, List.flatMap_map]
  have hunbroken : ∀ line ∈ records.map (fun record => record.line.toList), Unbroken line :=
    List.forall_mem_map.mpr fun record _ => record.unbroken_line
  have huniform : uniformNewlines (auditText (records.map AuditRecord.line)) =
      auditText (records.map AuditRecord.line) := by
    apply uniformNewlines_of_not_mem
    rw [htext]
    intro hreturn
    obtain ⟨line, hline, hc⟩ := List.mem_flatMap.mp hreturn
    rcases List.mem_append.mp hc with hwritten | hfeed
    · exact (hunbroken line hline).not_mem_newline.2 hwritten
    · exact absurd hfeed (by decide)
  have hrows : (fileLines (auditText (records.map AuditRecord.line))).mapM decisionRow =
      some (records.map fun record =>
        (decision? record).map fun made => nodeOf (AuditRecord.decision made).members) := by
    rw [htext, fileLines_flatMap fun line hline => (hunbroken line hline).not_mem_newline.1,
      List.map_map]
    exact mapM_some_map decisionRow _ _ records decisionRow_line
  have hreduced : (records.map fun record =>
      (decision? record).map fun made => nodeOf (AuditRecord.decision made).members).reduceOption =
        (decisions records).map fun made => nodeOf (AuditRecord.decision made).members := by
    show (records.map _).filterMap id = _
    rw [List.filterMap_map, decisions, List.map_filterMap]
    rfl
  have hactions : ((decisions records).map fun made =>
      nodeOf (AuditRecord.decision made).members).mapM actionOf =
        some ((decisions records).map fun made => (LayaGateway.actionText made.action).toList) :=
    mapM_some_map actionOf _ _ _ fun made => by rw [actionOf, (get_decision made).2.2]
  rw [loadAudit, huniform]
  simp only [hrows, hreduced, hactions, Option.bind_eq_bind, Option.bind_some]
  have hsequence : ∀ made : Option ModelDecision,
      ((made.map fun made => nodeOf (AuditRecord.decision made).members).bind
        fun row => row.get "sequence") =
          made.map fun made => .integer made.stateSequence.toNat := by
    intro made
    cases made with
    | none => rfl
    | some made => exact (get_decision made).2.1
  rw [List.length_map, List.head?_map, List.getLast?_map, hsequence, hsequence]
  rfl

/-- The telemetry counts the decisions among the records, and no orders. -/
structure Reads (records : List AuditRecord) (telemetry : Telemetry) : Prop where
  available : telemetry.available = true
  events : telemetry.events = (decisions records).length
  firstSequence : telemetry.firstSequence =
    (decisions records).head?.map fun made => .integer made.stateSequence.toNat
  lastSequence : telemetry.lastSequence =
    (decisions records).getLast?.map fun made => .integer made.stateSequence.toNat
  actions : ∀ action, (telemetry.actions.lookup (LayaGateway.actionText action).toList).getD 0 =
    (decisions records).countP fun made => made.action = action
  orders : telemetry.orders = 0 ∧ telemetry.fills = 0

theorem reads_telemetryOf (records : List AuditRecord) : Reads records (telemetryOf records) where
  available := rfl
  events := rfl
  firstSequence := rfl
  lastSequence := rfl
  actions := fun action => by
    rw [telemetryOf, lookup_foldl_tally, List.countP_map]
    apply List.countP_congr
    intro made _
    simp only [Function.comp_apply, decide_eq_true_eq, Replay.actionText_injective.eq_iff]
  orders := ⟨rfl, rfl⟩

end Reading

open PaperExchange

/-- The audit over a run; `earlier` is what the file held when the writer opened it. -/
structure Audited (useLaya : Bool) (events : List ServiceEvent) (service : Service) : Prop where
  recorded : Service.recorded events ++ (service.pendingRecord useLaya).toList =
    Service.dueRecords useLaya events
  decisions : decisions (Service.dueRecords useLaya events) = Service.delivered useLaya events
  orders : ∀ before event acted order positionUnits after,
    events = before ++ ServiceEvent.acted event acted (some order) positionUnits :: after →
      order.2 = ((run exchangeConfig (Service.exchangeCalls before)).submit order.1
        event.receiveTimeNs).2 ∧
      positionUnits = ((run exchangeConfig (Service.exchangeCalls before)).submit order.1
        event.receiveTimeNs).1.ledger.state.positionUnits
  file : service.audit.destroyed = true → service.audit.healthy = true →
    ∃ records : List AuditRecord, records.Sublist (Service.dueRecords useLaya events) ∧
      records.length + service.audit.droppedEvents = (Service.dueRecords useLaya events).length ∧
      service.audit.file = records.map AuditRecord.line ∧
      ∀ earlier : List AuditRecord, ∃ telemetry,
        loadAudit (some (auditText (earlier.map AuditRecord.line ++ service.audit.file))) =
          some telemetry ∧ Reads (earlier ++ records) telemetry

section Runs
variable {useLaya : Bool} {events : List ServiceEvent}

theorem decisions_dueRecords :
    decisions (Service.dueRecords useLaya events) = Service.delivered useLaya events := by
  rw [decisions, Service.dueRecords, List.filterMap_filterMap, Service.delivered]
  apply List.filterMap_congr
  intro event _
  cases event with
  | heard arrival given =>
    show ((produced useLaya given).map AuditRecord.decision).bind decision? = produced useLaya given
    cases produced useLaya given <;> rfl
  | took taken => cases taken <;> rfl
  | acted event acted sent positionUnits => cases sent <;> rfl
  | _ => rfl

theorem trace_audited (answers : ModelState → Outcome → Prop) (useLaya : Bool)
    (config : PublicFeed.BinancePublicFeedConfig) (events : List ServiceEvent) (service : Service)
    (htrace : Trace (Service.Step answers useLaya config) {} events service) :
    Audited useLaya events service := by
  have hrecords := Service.records_trace htrace
  have hkept := AuditWriter.kept_trace (Service.writer_trace htrace)
  refine ⟨hrecords.recorded, decisions_dueRecords, ?_, fun hdestroyed hhealthy => ?_⟩
  · rintro before event acted order positionUnits after rfl
    obtain ⟨reached, next, hbefore, hstep⟩ := htrace.step_of_split
    have hexchange := (Service.mirrors_trace hbefore).exchange
    generalize hlabel : ServiceEvent.acted event acted (some order) positionUnits = label at hstep
    cases hstep with
    | acted callback _ hcallback =>
      obtain ⟨rfl, _, hsent, rfl⟩ := ServiceEvent.acted.inj hlabel
      rw [← hexchange, (act_acts reached.live callback).exchange, ← hsent]
      exact ⟨Service.act_sent hsent.symm, rfl⟩
    | _ => cases hlabel
  · have hstage := hrecords.returned (hrecords.destroyed hdestroyed)
    have hall : Service.recorded events = Service.dueRecords useLaya events := by
      have hdue := hrecords.recorded
      rwa [Service.pendingRecord, hstage, Option.toList_none, List.append_nil] at hdue
    have hfile : service.audit.file = (Service.kept events).map AuditRecord.line :=
      (hkept.file_eq hdestroyed hhealthy).trans hrecords.accepted
    refine ⟨Service.kept events, hall ▸ hrecords.kept, ?_, hfile, fun earlier =>
      ⟨telemetryOf (earlier ++ Service.kept events), ?_, reads_telemetryOf _⟩⟩
    · have hcounted := hkept.counted
      rwa [hrecords.accepted, hrecords.appended, List.length_map, List.length_map, hall]
        at hcounted
    · rw [hfile, ← List.map_append]
      exact loadAudit_records _

/-- A baseline session: after a hundred tickers the decision under the number of five hundred is
acted on, the feed returns, and the writer comes down. -/
theorem trace_audited_session :
    let ticker : JsonObject := [("e", .string "bookTicker".toList), ("E", .int64 1),
      ("b", .string "60000.00".toList), ("a", .string "60000.10".toList),
      ("B", .string "3".toList), ("A", .string "2.5".toList)]
    let arrivals : List PublicFeed.Arrival := List.replicate 400 (.message (some (.object [])) 1) ++
      List.replicate 100 (.message (some (.object ticker)) 2000000)
    let run := arrivals.foldl (Service.turn false {}) ([], {})
    ∃ more service, (run.2.audit.queue.length = 2 ∧
        run.2.live.exchange.ledger.state.positionUnits = 1) ∧
      service.audit.destroyed = true ∧ service.audit.healthy = true ∧
      Audited false (run.1 ++ [.returned] ++ more) service := by
  intro ticker arrivals run
  have hrun : run.2.stage = .waiting ∧ run.2.audit = { queue := run.2.audit.queue } ∧
      run.2.audit.queue.length = 2 ∧
      run.2.live.exchange.ledger.state.positionUnits = 1 := by decide +kernel
  have hturns : Trace (Service.Step (fun _ _ => True) false {}) {} run.1 run.2 :=
    Service.trace_turns _ false {} arrivals
  clear_value run
  have htrace := hturns.snoc (.returned _ hrun.1)
  obtain ⟨more, audit, hwrites, hdestroyed, hhealthy, _⟩ :=
    Service.trace_shutdown htrace rfl hrun.2.1
  exact ⟨more, _, hrun.2.2, hdestroyed, hhealthy, trace_audited _ _ _ _ _ hwrites.trace⟩

end Runs
end Astra.PaperAudit
