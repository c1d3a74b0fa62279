import AstraTrader.Live.Service

/-! The service refines the live loop: with the callback cut in seven places instead of one, the
other threads meet nothing that they could not have met before. -/

namespace Astra.Live
open Process

section Halves
variable (useLaya : Bool) (state : State) (callback : Callback)

theorem act_callback : (act state callback).state.callback = none := by
  unfold act
  dsimp only
  split
  · rfl
  · split_ifs <;> rfl

theorem act_worker (modelWorker : ModelWorker) :
    act { state with modelWorker } callback =
      { act state callback with
        state := { (act state callback).state with modelWorker } } := by
  unfold act
  dsimp only
  split
  · rfl
  · split_ifs <;> rfl

theorem act_modelWorker : (act state callback).state.modelWorker = state.modelWorker := by
  unfold act
  dsimp only
  split
  · rfl
  · split_ifs <;> rfl

theorem finish_eq_act : finish useLaya state callback =
    { state := (act (take useLaya state).1 callback).state
      taken := (take useLaya state).2
      acted := (act (take useLaya state).1 callback).acted
      sent := (act (take useLaya state).1 callback).sent } := by
  unfold finish act take
  generalize (if useLaya then state.modelWorker.tryTake else (state.modelWorker, none)) = took
  obtain ⟨modelWorker, taken⟩ := took
  dsimp only
  generalize taken.or state.latestDecision = latest
  cases latest with
  | none => rfl
  | some decision =>
    dsimp only
    split_ifs <;> rfl

end Halves

namespace Service

section Views
variable {service next : Service} {callback : Callback}

theorem view_of_not_ahead (h : service.stage.ahead = false) : service.view = service.live := by
  unfold view
  split
  · rw [h]
    rfl
  · rfl

theorem view_of_ahead (hcallback : service.live.callback = some callback)
    (h : service.stage.ahead = true) : service.view = (act service.live callback).state := by
  unfold view
  rw [hcallback]
  exact if_pos h

theorem pendingCalls_of_not_ahead (h : service.stage.ahead = false) :
    service.pendingCalls = [] := by
  unfold pendingCalls
  split
  · rw [h]
    rfl
  · rfl

theorem pendingCalls_of_ahead (hcallback : service.live.callback = some callback)
    (h : service.stage.ahead = true) : service.pendingCalls =
      ServiceEvent.sentCalls callback.event (act service.live callback).sent := by
  unfold pendingCalls
  rw [hcallback]
  exact if_pos h

theorem view_of_idle (h : service.live.callback = none) : service.view = service.live := by
  unfold view
  rw [h]

theorem pendingCalls_of_idle (h : service.live.callback = none) : service.pendingCalls = [] := by
  unfold pendingCalls
  rw [h]

/-- A step of the worker is the same whether or not the callback has acted. -/
theorem view_worker (service : Service) (modelWorker : ModelWorker) :
    let moved := { service with live := { service.live with modelWorker } }
    moved.view = { service.view with modelWorker } ∧
      moved.pendingCalls = service.pendingCalls ∧
      service.view.modelWorker = service.live.modelWorker := by
  intro moved
  cases hcallback : service.live.callback with
  | none =>
    have hmoved : moved.live.callback = none := hcallback
    rw [view_of_idle hmoved, view_of_idle hcallback, pendingCalls_of_idle hmoved,
      pendingCalls_of_idle hcallback]
    exact ⟨rfl, rfl, rfl⟩
  | some callback =>
    have hmoved : moved.live.callback = some callback := hcallback
    cases hahead : service.stage.ahead with
    | true =>
      have hmovedAhead : moved.stage.ahead = true := hahead
      rw [view_of_ahead hmoved hmovedAhead, view_of_ahead hcallback hahead,
        pendingCalls_of_ahead hmoved hmovedAhead, pendingCalls_of_ahead hcallback hahead]
      have hact : act moved.live callback = _ := act_worker service.live callback modelWorker
      rw [hact]
      exact ⟨rfl, rfl, act_modelWorker ..⟩
    | false =>
      have hmovedAhead : moved.stage.ahead = false := hahead
      rw [view_of_not_ahead hmovedAhead, view_of_not_ahead hahead,
        pendingCalls_of_not_ahead hmovedAhead, pendingCalls_of_not_ahead hahead]
      exact ⟨rfl, rfl, rfl⟩

theorem ahead_afterTake (made : Option ModelDecision) : (afterTake made).ahead = true := by
  cases made <;> rfl

theorem busy_afterTake (made : Option ModelDecision) : (afterTake made).busy = true := by
  cases made <;> rfl

theorem busy_afterAct (action : Action) : (afterAct callback action).busy = false := by
  unfold afterAct
  cases action.sent <;> rfl

theorem ahead_afterAct (action : Action) : (afterAct callback action).ahead = false := by
  unfold afterAct
  cases action.sent <;> rfl

end Views

/-- A run of the live loop that explains the service so far. -/
structure Explains (useLaya : Bool) (events : List ServiceEvent) (service : Service)
    (others : List LiveEvent) (state : State) : Prop where
  placed : service.live.callback.isSome = service.stage.busy
  view : state = service.view
  heard : Live.heard others = heard events
  delivered : Live.delivered useLaya others = delivered useLaya events
  calls : Live.exchangeCalls others = exchangeCalls events ++ service.pendingCalls

section Histories
variable {events : List ServiceEvent} {event : ServiceEvent} {useLaya : Bool}

theorem heard_concat : heard (events ++ [event]) = heard events ++ event.heard?.toList :=
  filterMap_concat ..

theorem delivered_concat : delivered useLaya (events ++ [event]) =
    delivered useLaya events ++ (event.delivered? useLaya).toList :=
  filterMap_concat ..

theorem exchangeCalls_concat :
    exchangeCalls (events ++ [event]) = exchangeCalls events ++ event.exchangeCalls := by
  unfold exchangeCalls
  rw [List.flatMap_append, List.flatMap_singleton]

theorem liveCalls_concat {others : List LiveEvent} {other : LiveEvent} :
    Live.exchangeCalls (others ++ [other]) = Live.exchangeCalls others ++ other.exchangeCalls := by
  unfold Live.exchangeCalls
  rw [List.flatMap_append, List.flatMap_singleton]

end Histories

section Steps
variable {answers : ModelState → Outcome → Prop} {useLaya : Bool}
  {config : PublicFeed.BinancePublicFeedConfig} {events : List ServiceEvent}
  {service next : Service} {event : ServiceEvent} {others : List LiveEvent} {state : State}

theorem Explains.stutter (h : Explains useLaya events service others state)
    (hheard : event.heard? = none) (hdelivered : event.delivered? useLaya = none)
    (hcalls : event.exchangeCalls = []) (hlive : next.live = service.live)
    (hbusy : next.stage.busy = service.stage.busy)
    (hahead : next.stage.ahead = service.stage.ahead) :
    ∃ d v, Seen (Live.Step answers useLaya) state d v ∧
      Explains useLaya (events ++ [event]) next (others ++ d.toList) v := by
  refine ⟨none, state, .stutter, ?_⟩
  rw [Option.toList_none, List.append_nil]
  have hview : next.view = service.view := by
    unfold Service.view
    rw [hlive, hahead]
  have hpending : next.pendingCalls = service.pendingCalls := by
    unfold pendingCalls
    rw [hlive, hahead]
  exact {
    placed := by rw [hlive, hbusy, h.placed]
    view := by rw [hview, h.view]
    heard := by rw [heard_concat, hheard, Option.toList_none, List.append_nil, h.heard]
    delivered := by
      rw [delivered_concat, hdelivered, Option.toList_none, List.append_nil, h.delivered]
    calls := by rw [exchangeCalls_concat, hcalls, List.append_nil, hpending, h.calls] }

theorem Explains.aligned (h : Explains useLaya events service others state)
    (hahead : service.stage.ahead = false) :
    state = service.live ∧ Live.exchangeCalls others = exchangeCalls events := by
  have hcalls := h.calls
  rw [pendingCalls_of_not_ahead hahead, List.append_nil] at hcalls
  exact ⟨h.view.trans (view_of_not_ahead hahead), hcalls⟩

theorem Explains.step (h : Explains useLaya events service others state)
    (hstep : Step answers useLaya config service event next) :
    ∃ d v, Seen (Live.Step answers useLaya) state d v ∧
      Explains useLaya (events ++ [event]) next (others ++ d.toList) v := by
  have hidle : service.stage.busy = false → service.live.callback = none := fun hbusy => by
    have hplaced := h.placed
    rwa [hbusy, Option.isSome_eq_false_iff, Option.isNone_iff_eq_none] at hplaced
  cases hstep with
  | quiet arrival hstage => exact h.stutter rfl rfl rfl rfl rfl rfl
  | ignored arrival given hstage _ _ hignored =>
    have hahead : service.stage.ahead = false := by rw [hstage]; rfl
    have hcallback : service.live.callback = none := hidle (by rw [hstage]; rfl)
    obtain ⟨rfl, hcalls⟩ := h.aligned hahead
    refine ⟨some (.ignored given), _, .step (.ignored _ given hcallback hignored), ?_⟩
    rw [receive_of_not_accepts _ _ _ hignored]
    exact {
      placed := by rw [hcallback, hstage]; rfl
      view := by
        rw [view_of_not_ahead]
        exact hahead
      heard := by simpa [heard_concat, ServiceEvent.heard?] using h.heard
      delivered := by simpa [delivered_concat, ServiceEvent.delivered?] using h.delivered
      calls := by
        rw [pendingCalls_of_not_ahead, Option.toList_some, liveCalls_concat, hcalls,
          exchangeCalls_concat, List.append_nil]
        · rfl
        · exact hahead }
  | heard arrival given hstage _ _ haccepts =>
    have hahead : service.stage.ahead = false := by rw [hstage]; rfl
    have hcallback : service.live.callback = none := hidle (by rw [hstage]; rfl)
    obtain ⟨rfl, hcalls⟩ := h.aligned hahead
    refine ⟨some (.received given), _, .step (.received _ given hcallback haccepts), ?_⟩
    have hreceived := receive_of_accepts useLaya service.live given haccepts
    exact {
      placed := by
        rw [hreceived.callback]
        rfl
      view := by
        rw [view_of_not_ahead]
        rfl
      heard := by simpa [heard_concat, ServiceEvent.heard?] using h.heard
      delivered := by simpa [delivered_concat, ServiceEvent.delivered?] using h.delivered
      calls := by
        rw [pendingCalls_of_not_ahead, Option.toList_some, liveCalls_concat, hcalls,
          exchangeCalls_concat, List.append_nil]
        · rfl
        · rfl }
  | took callback hstage hcallback =>
    have hahead : service.stage.ahead = false := by rw [hstage]; rfl
    obtain ⟨rfl, hcalls⟩ := h.aligned hahead
    refine ⟨_, _, .step (.finished _ callback hcallback), ?_⟩
    have htaken : (take useLaya service.live).1.callback = some callback := hcallback
    have hafter := ahead_afterTake ((take useLaya service.live).2.or
      (produced useLaya callback.event))
    rw [finish_eq_act]
    exact {
      placed := by
        show ((take useLaya service.live).1.callback).isSome = _
        rw [htaken, busy_afterTake]
        rfl
      view := Eq.symm (view_of_ahead htaken hafter)
      heard := by simpa [heard_concat, ServiceEvent.heard?] using h.heard
      delivered := by simpa [delivered_concat, ServiceEvent.delivered?] using h.delivered
      calls := by
        rw [Option.toList_some, liveCalls_concat, hcalls, exchangeCalls_concat,
          List.append_assoc]
        exact congrArg (exchangeCalls events ++ ·)
          (Eq.symm (pendingCalls_of_ahead htaken hafter)) }
  | decision made hstage =>
    exact h.stutter rfl rfl rfl rfl (by rw [hstage]; rfl) (by rw [hstage]; rfl)
  | composed callback hstage =>
    exact h.stutter rfl rfl rfl rfl (by rw [hstage]; rfl) (by rw [hstage]; rfl)
  | published report hstage =>
    exact h.stutter rfl rfl rfl rfl (by rw [hstage]; rfl) (by rw [hstage]; rfl)
  | acted callback hstage hcallback =>
    have hahead : service.stage.ahead = true := by
      rcases hstage with hshown | ⟨hdecided, _⟩
      · rw [hshown]
        rfl
      · rw [hdecided]
        rfl
    have hafter : (afterAct callback (act service.live callback)).ahead = false :=
      ahead_afterAct _
    refine ⟨none, state, .stutter, ?_⟩
    rw [Option.toList_none, List.append_nil]
    exact {
      placed := by
        show ((act service.live callback).state.callback).isSome = _
        rw [act_callback, busy_afterAct]
        rfl
      view := by
        rw [view_of_not_ahead, h.view]
        · exact view_of_ahead hcallback hahead
        · exact hafter
      heard := by simpa [heard_concat, ServiceEvent.heard?] using h.heard
      delivered := by simpa [delivered_concat, ServiceEvent.delivered?] using h.delivered
      calls := by
        rw [pendingCalls_of_not_ahead, h.calls, pendingCalls_of_ahead hcallback hahead,
          exchangeCalls_concat, List.append_nil]
        · rfl
        · exact hafter }
  | order record hstage =>
    exact h.stutter rfl rfl rfl rfl (by rw [hstage]; rfl) (by rw [hstage]; rfl)
  | returned hstage => exact h.stutter rfl rfl rfl rfl rfl rfl
  | worked workerEvent worker hmoves hworker =>
    obtain ⟨hview, hpending, hsame⟩ := view_worker service worker
    refine ⟨some (.worked workerEvent), { state with modelWorker := worker }, .step ?_, ?_⟩
    · apply Live.Step.worked _ _ _ hmoves
      rwa [h.view, hsame]
    · exact {
        placed := h.placed
        view := by rw [hview, h.view]
        heard := by simpa [heard_concat, ServiceEvent.heard?] using h.heard
        delivered := by simpa [delivered_concat, ServiceEvent.delivered?] using h.delivered
        calls := by
          rw [Option.toList_some, liveCalls_concat, h.calls, exchangeCalls_concat, hpending]
          simp [LiveEvent.exchangeCalls, ServiceEvent.exchangeCalls] }
  | wrote writerEvent audit => exact h.stutter rfl rfl rfl rfl rfl rfl
  | served request => exact h.stutter rfl rfl rfl rfl rfl rfl

end Steps

/-- What the thread of the feed does next in a callback. -/
def advance (useLaya : Bool) (service : Service) : Option (ServiceEvent × Service) :=
  match service.stage, service.live.callback with
  | .heard, some callback =>
    let (live, taken) := take useLaya service.live
    some (.took taken,
      { service with live, stage := afterTake (taken.or (produced useLaya callback.event)) })
  | .deciding made, _ => some (.recorded (.decision made) (!service.audit.refuses auditCapacity),
      { service with
        audit := service.audit.append auditCapacity (AuditRecord.decision made).line
        stage := .decided })
  | .decided, some callback =>
    if callback.event.sequence % 100 = 0 then
      some (.composed (service.report useLaya callback),
        { service with stage := .showing (service.report useLaya callback) })
    else some (goOn service callback)
  | .showing report, _ => some (.published report,
      { service with
        status := service.status.publish report.event.sequence report.json
        stage := .shown })
  | .shown, some callback => some (goOn service callback)
  | .recording record, _ => some (.recorded record (!service.audit.refuses auditCapacity),
      { service with audit := service.audit.append auditCapacity record.line, stage := .waiting })
  | _, _ => none
where
  goOn (service : Service) (callback : Callback) : ServiceEvent × Service :=
    let action := act service.live callback
    (.acted callback.event action.acted action.sent
        action.state.exchange.ledger.state.positionUnits,
      { service with live := action.state, stage := afterAct callback action })

def arrive (useLaya : Bool) (config : PublicFeed.BinancePublicFeedConfig) (service : Service)
    (arrival : PublicFeed.Arrival) : ServiceEvent × Service :=
  let feed := PublicFeed.feedStep config service.feed arrival
  match handed config service.feed arrival with
  | none => (.quiet arrival, { service with feed })
  | some event =>
    let live := receive useLaya service.live event
    if service.live.exchange.accepts event then
      (.heard arrival event, { service with feed, live, stage := .heard })
    else (.ignored arrival event, { service with feed, live })

def drain (useLaya : Bool) : ℕ → List ServiceEvent × Service → List ServiceEvent × Service
  | 0, run => run
  | fuel + 1, run =>
    match advance useLaya run.2 with
    | some (event, service) => drain useLaya fuel (run.1 ++ [event], service)
    | none => run

/-- An arrival with the whole of its callback, if there is one. -/
def turn (useLaya : Bool) (config : PublicFeed.BinancePublicFeedConfig)
    (run : List ServiceEvent × Service) (arrival : PublicFeed.Arrival) :
    List ServiceEvent × Service :=
  match run.2.stage, run.2.returned with
  | .waiting, false =>
    let (event, service) := arrive useLaya config run.2 arrival
    drain useLaya 6 (run.1 ++ [event], service)
  | _, _ => run

section Turns
variable {answers : ModelState → Outcome → Prop} {useLaya : Bool}
  {config : PublicFeed.BinancePublicFeedConfig} {service next : Service} {event : ServiceEvent}

theorem step_of_advance (h : advance useLaya service = some (event, next)) :
    Step answers useLaya config service event next := by
  unfold advance at h
  split at h
  · rename_i callback hstage hcallback
    obtain ⟨rfl, rfl⟩ := Prod.mk.inj (Option.some.inj h)
    exact .took service callback hstage hcallback
  · rename_i _ made hstage
    obtain ⟨rfl, rfl⟩ := Prod.mk.inj (Option.some.inj h)
    exact .decision service made hstage
  · rename_i callback hstage hcallback
    split_ifs at h with hhundredth
    · obtain ⟨rfl, rfl⟩ := Prod.mk.inj (Option.some.inj h)
      exact .composed service callback hstage hcallback hhundredth
    · obtain ⟨rfl, rfl⟩ := Prod.mk.inj (Option.some.inj h)
      exact .acted service callback (.inr ⟨hstage, hhundredth⟩) hcallback
  · rename_i _ report hstage
    obtain ⟨rfl, rfl⟩ := Prod.mk.inj (Option.some.inj h)
    exact .published service report hstage
  · rename_i callback hstage hcallback
    obtain ⟨rfl, rfl⟩ := Prod.mk.inj (Option.some.inj h)
    exact .acted service callback (.inl hstage) hcallback
  · rename_i _ record hstage
    obtain ⟨rfl, rfl⟩ := Prod.mk.inj (Option.some.inj h)
    exact .order service record hstage
  · cases h

theorem step_arrive (hstage : service.stage = .waiting) (hreturned : service.returned = false)
    (arrival : PublicFeed.Arrival) : Step answers useLaya config service
      (arrive useLaya config service arrival).1 (arrive useLaya config service arrival).2 := by
  unfold arrive
  dsimp only
  cases hgiven : handed config service.feed arrival with
  | none => exact .quiet service arrival hstage hreturned hgiven
  | some given =>
    dsimp only
    split_ifs with haccepts
    · exact .heard service arrival given hstage hreturned hgiven haccepts
    · exact .ignored service arrival given hstage hreturned hgiven haccepts

theorem trace_drain (fuel : ℕ) {run : List ServiceEvent × Service}
    (h : Trace (Step answers useLaya config) {} run.1 run.2) :
    Trace (Step answers useLaya config) {} (drain useLaya fuel run).1
      (drain useLaya fuel run).2 := by
  induction fuel generalizing run with
  | zero => exact h
  | succ fuel ih =>
    unfold drain
    split
    · rename_i hadvance
      exact ih (h.snoc (step_of_advance hadvance))
    · exact h

/-- Among the interleavings is the one in which the other threads wait. -/
theorem trace_turns (answers : ModelState → Outcome → Prop) (useLaya : Bool)
    (config : PublicFeed.BinancePublicFeedConfig) (arrivals : List PublicFeed.Arrival) :
    Trace (Step answers useLaya config) {} (arrivals.foldl (turn useLaya config) ([], {})).1
      (arrivals.foldl (turn useLaya config) ([], {})).2 := by
  refine @run_invariant_of_forall _ _ (turn useLaya config)
    (fun run => Trace (Step answers useLaya config) {} run.1 run.2)
    (fun run arrival htrace => ?_) _ .nil arrivals
  unfold turn
  split
  · rename_i hstage hreturned
    exact trace_drain 6 (htrace.snoc (step_arrive hstage hreturned arrival))
  · exact htrace

end Turns

theorem explains_initial (useLaya : Bool) : Explains useLaya [] {} [] initial :=
  ⟨rfl, rfl, rfl, rfl, rfl⟩

/-- Every interleaving of the service is one of the live loop, with the same events heard, the same
decisions delivered and, but for an order that is still to be sent, the same calls. -/
theorem trace_refines (answers : ModelState → Outcome → Prop) (useLaya : Bool)
    (config : PublicFeed.BinancePublicFeedConfig) (events : List ServiceEvent) (service : Service)
    (htrace : Trace (Step answers useLaya config) {} events service) :
    ∃ others state, Trace (Live.Step answers useLaya) initial others state ∧
      Explains useLaya events service others state :=
  htrace.simulate (explains_initial useLaya) fun h hstep => h.step hstep

/-- A ticker under the number of a thousand, which goes to the worker and is shown. -/
theorem trace_refines_ticker :
    let ticker : Text.JsonObject := [("e", .string "bookTicker".toList), ("E", .int64 1),
      ("b", .string "100.00".toList), ("a", .string "100.01".toList),
      ("B", .string "3".toList), ("A", .string "2.5".toList)]
    let arrivals : List PublicFeed.Arrival := List.replicate 999 (.message (some (.object [])) 1) ++
      [.message (some (.object ticker)) 2000000]
    let run := arrivals.foldl (turn true {}) ([], {})
    run.1.length = 1004 ∧ ∃ others state,
      Trace (Live.Step (fun _ _ => True) true) initial others state ∧
        Explains true run.1 run.2 others state :=
  ⟨by decide +kernel, trace_refines _ true {} _ _ (trace_turns _ true {} _)⟩

end Service
end Astra.Live
