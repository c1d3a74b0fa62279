import AstraTrader.Live.Served

/-! The audit of the service: what a callback has for it, in order, is what the writer is given, and
what the writer's file holds in the end is what its queue took. -/

namespace Astra
open Process

namespace AuditWriter

theorem Kept.file_eq {capacity : ℕ} {events : List WriterEvent} {writer : AuditWriter}
    (h : Kept capacity events writer) (hdestroyed : writer.destroyed = true)
    (hhealthy : writer.healthy = true) : writer.file = accepted events := by
  have hphase := h.destroyed hdestroyed
  have hsound : writer.failed = false := by
    cases hfailed : writer.failed with
    | false => rfl
    | true =>
      rcases h.failed hfailed with hunhealthy | ⟨batch, hwriting⟩
      · exact absurd (hhealthy.symm.trans hunhealthy) (by simp)
      · exact absurd (hphase.symm.trans hwriting) (by simp)
  have hqueue : writer.queue = [] := by
    rcases h.exited hphase with hunhealthy | ⟨_, hempty⟩
    · exact absurd (hhealthy.symm.trans hunhealthy) (by simp)
    · exact hempty
  have hlines := h.lines hsound
  rwa [hqueue, batch, hphase, List.append_nil, List.append_nil] at hlines

theorem kept_trace {capacity : ℕ} {events : List WriterEvent} {writer : AuditWriter}
    (htrace : Trace (Step capacity) {} events writer) : Kept capacity events writer := by
  have hinitial : Kept capacity [] {} :=
    ⟨rfl, Nat.zero_le _, fun _ => rfl, by simp, by simp, by simp⟩
  apply htrace.invariant hinitial
  exact fun h hstep => h.step hstep

end AuditWriter

namespace Live
open PaperExchange

namespace ServiceEvent

def recorded? : ServiceEvent → Option AuditRecord
  | .recorded record _ => some record
  | _ => none

def kept? : ServiceEvent → Option AuditRecord
  | .recorded record accepted => if accepted then some record else none
  | _ => none

/-- What the writer sees of a step. -/
def writerEvent? : ServiceEvent → Option WriterEvent
  | .recorded record accepted => some (.append record.line accepted)
  | .wrote event => some event
  | _ => none

/-- What a step has for the audit. -/
def due? (useLaya : Bool) : ServiceEvent → Option AuditRecord
  | .heard _ event => (produced useLaya event).map .decision
  | .took taken => taken.map .decision
  | .acted event _ sent positionUnits =>
    sent.map fun order => .order event.sequence order.2 positionUnits
  | _ => none

end ServiceEvent

namespace Service

def recorded (events : List ServiceEvent) : List AuditRecord :=
  events.filterMap ServiceEvent.recorded?

/-- The records whose lines the queue took. -/
def kept (events : List ServiceEvent) : List AuditRecord := events.filterMap ServiceEvent.kept?

def writerEvents (events : List ServiceEvent) : List WriterEvent :=
  events.filterMap ServiceEvent.writerEvent?

def dueRecords (useLaya : Bool) (events : List ServiceEvent) : List AuditRecord :=
  events.filterMap (ServiceEvent.due? useLaya)

/-- The record that the callback has in hand. -/
def pendingRecord (useLaya : Bool) (service : Service) : Option AuditRecord :=
  match service.stage with
  | .heard =>
    (service.live.callback.bind fun callback => produced useLaya callback.event).map .decision
  | .deciding made => some (.decision made)
  | .recording record => some record
  | _ => none

structure Records (useLaya : Bool) (events : List ServiceEvent) (service : Service) : Prop where
  recorded : recorded events ++ (service.pendingRecord useLaya).toList = dueRecords useLaya events
  appended : appended (writerEvents events) = (Service.recorded events).map AuditRecord.line
  accepted : accepted (writerEvents events) = (kept events).map AuditRecord.line
  kept : (kept events).Sublist (Service.recorded events)
  returned : service.returned = true → service.stage = .waiting
  destroyed : service.audit.destroyed = true → service.returned = true

section Steps
variable {answers : ModelState → Outcome → Prop} {useLaya : Bool}
  {config : PublicFeed.BinancePublicFeedConfig} {events : List ServiceEvent}
  {service next : Service} {event : ServiceEvent} {callback : Callback}

theorem recorded_concat :
    recorded (events ++ [event]) = recorded events ++ event.recorded?.toList := filterMap_concat ..

theorem kept_concat : kept (events ++ [event]) = kept events ++ event.kept?.toList :=
  filterMap_concat ..

theorem writerEvents_concat :
    writerEvents (events ++ [event]) = writerEvents events ++ event.writerEvent?.toList :=
  filterMap_concat ..

theorem dueRecords_concat : dueRecords useLaya (events ++ [event]) =
    dueRecords useLaya events ++ (event.due? useLaya).toList := filterMap_concat ..

theorem seen_audit (hstep : Step answers useLaya config service event next) :
    Seen (AuditWriter.Step auditCapacity) service.audit event.writerEvent? next.audit := by
  cases hstep with
  | decision made => exact .step (.append _ _)
  | order record => exact .step (.append _ _)
  | wrote writerEvent audit _ _ hwriter => exact .step hwriter
  | _ => exact .stutter

theorem writer_trace (htrace : Trace (Step answers useLaya config) {} events service) :
    Trace (AuditWriter.Step auditCapacity) {} (writerEvents events) service.audit :=
  htrace.project Service.audit ServiceEvent.writerEvent? seen_audit

theorem Records.unrecorded (h : Records useLaya events service) (hrecorded : event.recorded? = none)
    (hkept : event.kept? = none)
    (hwriter : ∀ writerEvent ∈ event.writerEvent?, writerEvent.appended? = none)
    (hdue : (service.pendingRecord useLaya).toList ++ (event.due? useLaya).toList =
      (next.pendingRecord useLaya).toList)
    (hreturned : next.returned = true → next.stage = .waiting)
    (hdestroyed : next.audit.destroyed = true → next.returned = true) :
    Records useLaya (events ++ [event]) next := by
  have hsame : Service.recorded (events ++ [event]) = Service.recorded events := by
    rw [recorded_concat, hrecorded, Option.toList_none, List.append_nil]
  have hkeptSame : Service.kept (events ++ [event]) = Service.kept events := by
    rw [kept_concat, hkept, Option.toList_none, List.append_nil]
  have hquiet : Astra.appended (writerEvents (events ++ [event])) =
        Astra.appended (writerEvents events) ∧
      Astra.accepted (writerEvents (events ++ [event])) =
        Astra.accepted (writerEvents events) := by
    rw [writerEvents_concat]
    cases hevent : event.writerEvent? with
    | none => rw [Option.toList_none, List.append_nil]; exact ⟨rfl, rfl⟩
    | some writerEvent =>
      have happended := hwriter writerEvent hevent
      have haccepted : writerEvent.accepted? = none := by
        cases writerEvent with
        | append => cases happended
        | _ => rfl
      rw [Option.toList_some, appended_concat, accepted_concat, happended, haccepted,
        Option.toList_none, List.append_nil, List.append_nil]
      exact ⟨rfl, rfl⟩
  exact {
    recorded := by rw [hsame, dueRecords_concat, ← h.recorded, List.append_assoc, hdue]
    appended := by rw [hquiet.1, hsame, h.appended]
    accepted := by rw [hquiet.2, hkeptSame, h.accepted]
    kept := by rw [hkeptSame, hsame]; exact h.kept
    returned := hreturned
    destroyed := hdestroyed }

theorem Records.record (h : Records useLaya events service) {record : AuditRecord}
    {accepted : Bool} (hevent : event = .recorded record accepted)
    (hpending : service.pendingRecord useLaya = some record)
    (hnone : next.pendingRecord useLaya = none)
    (hreturned : next.returned = true → next.stage = .waiting)
    (hdestroyed : next.audit.destroyed = true → next.returned = true) :
    Records useLaya (events ++ [event]) next := by
  subst hevent
  have hrecorded : Service.recorded (events ++ [.recorded record accepted]) =
      Service.recorded events ++ [record] := recorded_concat
  have hkept : Service.kept (events ++ [.recorded record accepted]) =
      Service.kept events ++ if accepted then [record] else [] := by
    rw [kept_concat]
    cases accepted <;> rfl
  have hdue := h.recorded
  rw [hpending, Option.toList_some] at hdue
  exact {
    recorded := by
      rw [hrecorded, hnone, Option.toList_none, List.append_nil, hdue, dueRecords_concat]
      exact (List.append_nil _).symm
    appended := by
      rw [writerEvents_concat, hrecorded, List.map_append, ← h.appended]
      exact appended_concat
    accepted := by
      rw [writerEvents_concat, hkept, List.map_append, ← h.accepted]
      refine accepted_concat.trans (congrArg _ ?_)
      cases accepted <;> rfl
    kept := by
      rw [hkept, hrecorded]
      apply h.kept.append
      cases accepted
      · exact List.nil_sublist _
      · exact List.Sublist.refl _
    returned := hreturned
    destroyed := hdestroyed }

theorem destroyed_of_step {capacity : ℕ} {writer written : AuditWriter} {writerEvent : WriterEvent}
    (hstep : AuditWriter.Step capacity writer writerEvent written)
    (hdestroyed : written.destroyed = true) : writer.destroyed = true ∨ writerEvent = .join := by
  cases hstep with
  | append jsonLine =>
    rw [AuditWriter.append] at hdestroyed
    split_ifs at hdestroyed <;> exact .inl hdestroyed
  | join => exact .inr rfl
  | _ => exact .inl hdestroyed

theorem took_or_made (useLaya : Bool) (state : State) (event : MarketEvent) :
    ((produced useLaya event).map AuditRecord.decision).toList ++
        ((take useLaya state).2.map AuditRecord.decision).toList =
      (((take useLaya state).2.or (produced useLaya event)).map AuditRecord.decision).toList := by
  cases useLaya with
  | true =>
    have hnone : produced true event = none := if_neg fun h => Bool.true_eq_false_eq_False h.1
    rw [hnone, Option.or_none]
    rfl
  | false =>
    show _ ++ [] = ((none.or (produced false event)).map AuditRecord.decision).toList
    rw [List.append_nil, Option.none_or]

theorem pendingRecord_afterTake (made : Option ModelDecision)
    (h : service.stage = afterTake made) :
    service.pendingRecord useLaya = made.map AuditRecord.decision := by
  unfold pendingRecord
  rw [h]
  cases made <;> rfl

theorem pendingRecord_afterAct (action : Action) (h : service.stage = afterAct callback action) :
    service.pendingRecord useLaya = action.sent.map fun order =>
      .order callback.event.sequence order.2
        action.state.exchange.ledger.state.positionUnits := by
  unfold pendingRecord
  rw [h, afterAct]
  cases action.sent <;> rfl

theorem Records.step (h : Records useLaya events service)
    (hstep : Step answers useLaya config service event next) :
    Records useLaya (events ++ [event]) next := by
  have hpending : ∀ stage, service.stage = stage → service.pendingRecord useLaya =
      ({ service with stage } : Service).pendingRecord useLaya := fun stage hstage => hstage ▸ rfl
  have hstands : ∀ jsonLine, (service.audit.append auditCapacity jsonLine).destroyed = true →
      service.returned = true := by
    intro jsonLine hdestroyed
    rcases destroyed_of_step (.append service.audit jsonLine) hdestroyed with hbefore | hjoin
    · exact h.destroyed hbefore
    · cases hjoin
  -- a callback is under way only while the feed has not returned
  have hrunning : service.stage ≠ .waiting → service.returned = true → False :=
    fun hstage hreturned => hstage (h.returned hreturned)
  cases hstep with
  | quiet arrival hstage =>
    refine h.unrecorded rfl rfl (by simp [ServiceEvent.writerEvent?]) ?_ h.returned h.destroyed
    exact List.append_nil _
  | ignored arrival given hstage _ _ hignored =>
    refine h.unrecorded rfl rfl (by simp [ServiceEvent.writerEvent?]) ?_ h.returned h.destroyed
    rw [receive_of_not_accepts _ _ _ hignored]
    exact List.append_nil _
  | heard arrival given hstage hreturned _ haccepts =>
    have hreceived := receive_of_accepts useLaya service.live given haccepts
    refine h.unrecorded rfl rfl (by simp [ServiceEvent.writerEvent?]) ?_
      (fun htrue => absurd (hreturned.symm.trans htrue) (by simp)) h.destroyed
    rw [hpending _ hstage]
    unfold pendingRecord
    dsimp only
    rw [hreceived.callback]
    rfl
  | took callback hstage hcallback =>
    refine h.unrecorded rfl rfl (by simp [ServiceEvent.writerEvent?]) ?_
      (fun htrue => (hrunning (by simp [hstage]) htrue).elim) h.destroyed
    have hbefore : service.pendingRecord useLaya =
        (produced useLaya callback.event).map AuditRecord.decision := by
      unfold pendingRecord
      rw [hstage, hcallback]
      rfl
    rw [hbefore,
      pendingRecord_afterTake ((take useLaya service.live).2.or (produced useLaya callback.event))]
    · exact took_or_made useLaya service.live callback.event
    · rfl
  | decision made hstage =>
    exact h.record rfl (by rw [hpending _ hstage]; rfl) rfl
      (fun htrue => (hrunning (by simp [hstage]) htrue).elim) (hstands _)
  | composed callback hstage =>
    refine h.unrecorded rfl rfl (by simp [ServiceEvent.writerEvent?]) ?_
      (fun htrue => (hrunning (by simp [hstage]) htrue).elim) h.destroyed
    rw [hpending _ hstage]
    rfl
  | published report hstage =>
    refine h.unrecorded rfl rfl (by simp [ServiceEvent.writerEvent?]) ?_
      (fun htrue => (hrunning (by simp [hstage]) htrue).elim) h.destroyed
    rw [hpending _ hstage]
    rfl
  | acted callback hstage hcallback =>
    have hnone : service.pendingRecord useLaya = none ∧ service.stage ≠ .waiting := by
      rcases hstage with hshown | ⟨hdecided, _⟩
      · exact ⟨by rw [hpending _ hshown]; rfl, by simp [hshown]⟩
      · exact ⟨by rw [hpending _ hdecided]; rfl, by simp [hdecided]⟩
    refine h.unrecorded rfl rfl (by simp [ServiceEvent.writerEvent?]) ?_
      (fun htrue => (hrunning hnone.2 htrue).elim) h.destroyed
    rw [hnone.1, pendingRecord_afterAct (act service.live callback)]
    · rfl
    · rfl
  | order record hstage =>
    exact h.record rfl (by rw [hpending _ hstage]; rfl) rfl (fun _ => rfl) (hstands _)
  | returned hstage =>
    refine h.unrecorded rfl rfl (by simp [ServiceEvent.writerEvent?]) ?_ (fun _ => hstage)
      fun _ => rfl
    exact List.append_nil _
  | worked workerEvent worker =>
    refine h.unrecorded rfl rfl (by simp [ServiceEvent.writerEvent?]) ?_ h.returned h.destroyed
    exact List.append_nil _
  | wrote writerEvent audit hquiet hdown hwriter =>
    refine h.unrecorded rfl rfl ?_ ?_ h.returned fun hdestroyed => ?_
    · intro other hother
      obtain rfl := Option.some.inj hother
      exact hquiet
    · exact List.append_nil _
    · rcases destroyed_of_step hwriter hdestroyed with hbefore | hjoin
      · exact h.destroyed hbefore
      · exact hdown (.inr hjoin)
  | served request =>
    refine h.unrecorded rfl rfl (by simp [ServiceEvent.writerEvent?]) ?_ h.returned h.destroyed
    exact List.append_nil _

theorem records_trace (htrace : Trace (Step answers useLaya config) {} events service) :
    Records useLaya events service := by
  have hinitial : Records useLaya [] {} :=
    ⟨rfl, rfl, rfl, List.Sublist.refl _, fun _ => rfl, by simp⟩
  exact htrace.invariant hinitial fun h hstep => h.step hstep

theorem act_sent {state : State} {order : OrderRequest × SubmitResult}
    (h : (act state callback).sent = some order) :
    order.2 = (state.exchange.submit order.1 callback.event.receiveTimeNs).2 := by
  unfold act at h
  dsimp only at h
  split at h
  · cases h
  · rename_i decision _
    split_ifs at h
    rcases execute_cases callback state.exchange decision with hnone | ⟨_, _, request, _, hsome⟩
    · rw [hnone] at h
      cases h
    · rw [hsome] at h
      obtain rfl := Option.some.inj h
      rfl

end Steps

/-- The writer's thread by itself. -/
structure Writes (answers : ModelState → Outcome → Prop) (useLaya : Bool)
    (config : PublicFeed.BinancePublicFeedConfig) (events : List ServiceEvent) (service : Service)
    (audit : AuditWriter) (more : List ServiceEvent) : Prop where
  trace : Trace (Step answers useLaya config) {} (events ++ more) { service with audit }
  silent : ∀ event ∈ more, event.due? useLaya = none

section Shutdown
variable {answers : ModelState → Outcome → Prop} {useLaya : Bool}
  {config : PublicFeed.BinancePublicFeedConfig} {events more : List ServiceEvent}
  {service : Service} {audit written : AuditWriter} {writerEvent : WriterEvent}

theorem Writes.snoc (h : Writes answers useLaya config events service audit more)
    (hquiet : writerEvent.appended? = none)
    (hdown : writerEvent = .stop ∨ writerEvent = .join → service.returned = true)
    (hstep : AuditWriter.Step auditCapacity audit writerEvent written) :
    Writes answers useLaya config events service written (more ++ [.wrote writerEvent]) := by
  refine ⟨?_, fun event hevent => ?_⟩
  · rw [← List.append_assoc]
    exact h.trace.snoc (.wrote { service with audit } writerEvent written hquiet hdown hstep)
  · rcases List.mem_append.mp hevent with hbefore | hlast
    · exact h.silent event hbefore
    · rw [List.mem_singleton.mp hlast]
      rfl

theorem Writes.batch (h : Writes answers useLaya config events service audit more)
    {batch : List String} (hphase : audit.phase = .writing batch) (hsound : audit.failed = false) :
    ∃ more, Writes answers useLaya config events service
      { audit with phase := .writing [], file := audit.file ++ batch } more := by
  induction batch generalizing audit more with
  | nil =>
    refine ⟨more, ?_⟩
    rw [← hphase, List.append_nil]
    exact h
  | cons line batch ih =>
    obtain ⟨further, hwritten⟩ :=
      ih (h.snoc rfl (by simp) (.write audit line batch hphase hsound)) rfl hsound
    rw [List.append_assoc, List.singleton_append] at hwritten
    exact ⟨further, hwritten⟩

/-- Once the feed has returned, a writer that has not begun can still write all it was given. -/
theorem trace_shutdown (htrace : Trace (Step answers useLaya config) {} events service)
    (hreturned : service.returned = true)
    (haudit : service.audit = { queue := service.audit.queue }) :
    ∃ more audit, Writes answers useLaya config events service audit more ∧
      audit.destroyed = true ∧ audit.healthy = true ∧ audit.droppedEvents = 0 := by
  have hstart : Writes answers useLaya config events service service.audit [] := by
    refine ⟨?_, fun event hevent => absurd hevent List.not_mem_nil⟩
    rwa [List.append_nil]
  rw [haudit] at hstart
  generalize service.audit.queue = queue at hstart
  have hopen := hstart.snoc rfl (by simp) (.openOk _ rfl)
  have hclose : ∀ {more : List ServiceEvent} {audit : AuditWriter},
      Writes answers useLaya config events service audit more → audit.phase = .waiting →
        audit.queue = [] → ∃ more, Writes answers useLaya config events service
          { audit with stopping := true, phase := .exited, destroyed := true } more := by
    intro more audit hdrained hphase hqueue
    have hstop := hdrained.snoc rfl (fun _ => hreturned) (.stop _)
    have hleave := hstop.snoc rfl (by simp) (.leave _ hphase rfl hqueue)
    exact ⟨_, hleave.snoc rfl (fun _ => hreturned) (.join _ rfl rfl)⟩
  rcases eq_or_ne queue [] with rfl | hqueue
  · obtain ⟨more, hclosed⟩ := hclose hopen rfl rfl
    exact ⟨more, _, hclosed, rfl, rfl, rfl⟩
  · obtain ⟨_, hwritten⟩ := (hopen.snoc rfl (by simp) (.swap _ rfl hqueue)).batch rfl rfl
    obtain ⟨more, hclosed⟩ := hclose (hwritten.snoc rfl (by simp) (.flush _ rfl rfl)) rfl rfl
    exact ⟨more, _, hclosed, rfl, rfl, rfl⟩

end Shutdown
end Service
end Live
end Astra
