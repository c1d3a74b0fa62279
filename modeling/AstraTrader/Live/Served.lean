import AstraTrader.Live.Hearing

/-! The status endpoint: over every interleaving a request is answered with the latest document,
there is one for every hundredth event that was heard, and it tells the state of that event. -/

namespace Astra.Live
open Process PaperExchange Text

namespace ServiceEvent

def published? : ServiceEvent → Option StatusReport
  | .published report => some report
  | _ => none

/-- A line that the audit did not take. -/
def isRefused : ServiceEvent → Bool
  | .recorded _ accepted => !accepted
  | _ => false

end ServiceEvent

/-- The document of the callback is still to come. -/
def Stage.unshown : Stage → Bool
  | .heard | .deciding _ | .decided | .showing _ => true
  | _ => false

def Hundredth (event : MarketEvent) : Prop := event.sequence % 100 = 0

instance : DecidablePred Hundredth := fun event =>
  inferInstanceAs (Decidable (event.sequence % 100 = 0))

namespace Service

def published (events : List ServiceEvent) : List StatusReport :=
  events.filterMap ServiceEvent.published?

def refused (events : List ServiceEvent) : ℕ := events.countP ServiceEvent.isRefused

/-- The document that there is to show. -/
def shownJson (events : List ServiceEvent) : List Char :=
  match (published events).getLast? with
  | some report => report.json
  | none => writeObject startingMembers

def shownSequence (events : List ServiceEvent) : UInt64 :=
  match (published events).getLast? with
  | some report => report.event.sequence
  | none => 0

/-- The event whose document is still to come. -/
def due (service : Service) : Option MarketEvent :=
  match service.live.callback with
  | some callback =>
    if service.stage.unshown = true ∧ Hundredth callback.event then some callback.event else none
  | none => none

/-- The document tells the state of the event that was heard last. -/
structure Truthful (useLaya : Bool) (events : List ServiceEvent) (report : StatusReport) :
    Prop where
  heard : (heard events).getLast? = some report.event
  hundredth : Hundredth report.event
  exchange : report.exchange = run exchangeConfig (exchangeCalls events)
  decision : report.decision = (delivered useLaya events).getLast?
  clock : report.clock = (clockAfter events).state
  droppedEvents : report.droppedEvents = refused events

structure Shows (useLaya : Bool) (events : List ServiceEvent) (service : Service) : Prop where
  due : (published events).map StatusReport.event ++ service.due.toList =
    (heard events).filter Hundredth
  json : service.status.json = shownJson events
  sequence : service.status.sequence = shownSequence events
  droppedEvents : service.audit.droppedEvents = refused events
  showing : ∀ report, service.stage = .showing report → Truthful useLaya events report

section Steps
variable {answers : ModelState → Outcome → Prop} {useLaya : Bool}
  {config : PublicFeed.BinancePublicFeedConfig} {events : List ServiceEvent}
  {service next : Service} {event : ServiceEvent} {callback : Callback}

theorem published_concat :
    published (events ++ [event]) = published events ++ event.published?.toList :=
  filterMap_concat ..

theorem refused_concat :
    refused (events ++ [event]) = refused events + if event.isRefused then 1 else 0 := by
  rw [refused, List.countP_append, List.countP_singleton, refused]

theorem shown_of_unpublished (h : event.published? = none) :
    shownJson (events ++ [event]) = shownJson events ∧
      shownSequence (events ++ [event]) = shownSequence events := by
  have hsame : published (events ++ [event]) = published events := by
    rw [published_concat, h, Option.toList_none, List.append_nil]
  unfold shownJson shownSequence
  rw [hsame]
  exact ⟨rfl, rfl⟩

theorem due_of_idle (h : service.live.callback = none) : service.due = none := by
  unfold due
  rw [h]

theorem due_of_shown (h : service.stage.unshown = false) : service.due = none := by
  unfold due
  split
  · rw [h]
    exact if_neg fun hdue => Bool.false_ne_true hdue.1
  · rfl

theorem due_of_callback (hcallback : service.live.callback = some callback)
    (h : service.stage.unshown = true) :
    service.due = if Hundredth callback.event then some callback.event else none := by
  unfold due
  rw [hcallback, h]
  dsimp only
  split_ifs <;> simp_all

theorem due_congr (hcallback : next.live.callback = service.live.callback)
    (hstage : next.stage.unshown = service.stage.unshown) : next.due = service.due := by
  unfold due
  rw [hcallback, hstage]

theorem droppedEvents_of_step {capacity : ℕ} {writer written : AuditWriter}
    {writerEvent : WriterEvent} (hquiet : writerEvent.appended? = none)
    (hstep : AuditWriter.Step capacity writer writerEvent written) :
    written.droppedEvents = writer.droppedEvents := by
  cases hstep with
  | append jsonLine => cases hquiet
  | _ => rfl

theorem droppedEvents_append (capacity : ℕ) (writer : AuditWriter) (jsonLine : String) :
    (writer.append capacity jsonLine).droppedEvents =
      writer.droppedEvents + if writer.refuses capacity then 1 else 0 := by
  unfold AuditWriter.append
  split_ifs <;> rfl

theorem Truthful.unseen {report : StatusReport} (h : Truthful useLaya events report)
    (hheard : event.heard? = none) (hdelivered : event.delivered? useLaya = none)
    (hcalls : event.exchangeCalls = []) (hrefused : event.isRefused = false) :
    Truthful useLaya (events ++ [event]) report := by
  have hsame : Service.heard (events ++ [event]) = Service.heard events := by
    rw [heard_concat, hheard, Option.toList_none, List.append_nil]
  exact {
    heard := by rw [hsame]; exact h.heard
    hundredth := h.hundredth
    exchange := by rw [exchangeCalls_concat, hcalls, List.append_nil]; exact h.exchange
    decision := by
      rw [delivered_concat, hdelivered, Option.toList_none, List.append_nil]
      exact h.decision
    clock := by rw [clockAfter, hsame]; exact h.clock
    droppedEvents := by rw [refused_concat, hrefused]; exact h.droppedEvents }

theorem Shows.unseen (h : Shows useLaya events service) (hheard : event.heard? = none)
    (hpublished : event.published? = none) (hdue : next.due = service.due)
    (hstatus : next.status = service.status)
    (hdropped : next.audit.droppedEvents = refused (events ++ [event]))
    (hshowing : ∀ report, next.stage = .showing report →
      Truthful useLaya (events ++ [event]) report) : Shows useLaya (events ++ [event]) next := by
  obtain ⟨hjson, hsequence⟩ := @shown_of_unpublished events event hpublished
  exact {
    due := by
      rw [published_concat, hpublished, Option.toList_none, List.append_nil, heard_concat, hheard,
        Option.toList_none, List.append_nil, hdue]
      exact h.due
    json := by rw [hstatus, hjson]; exact h.json
    sequence := by rw [hstatus, hsequence]; exact h.sequence
    droppedEvents := hdropped
    showing := hshowing }

theorem Shows.publish (h : Shows useLaya events service) (hmirrors : Mirrors useLaya events service)
    {report : StatusReport} (hstage : service.stage = .showing report) :
    service.due = some report.event ∧ service.status.publish report.event.sequence report.json =
      { sequence := report.event.sequence, json := report.json } := by
  have htrue := h.showing report hstage
  obtain ⟨callback, hcallback⟩ : ∃ callback, service.live.callback = some callback := by
    rw [← Option.isSome_iff_exists, hmirrors.placed, hstage]
    rfl
  have hevent : callback.event = report.event :=
    Option.some.inj ((hmirrors.callback callback hcallback).1.symm.trans htrue.heard)
  have hdue : service.due = some report.event := by
    rw [due_of_callback hcallback (by rw [hstage]; rfl), hevent, if_pos htrue.hundredth]
  refine ⟨hdue, if_neg ?_⟩
  rw [h.sequence, shownSequence]
  have hordered : ((published events).map StatusReport.event ++ [report.event]).Pairwise
      fun a b => a.sequence < b.sequence := by
    have hshown := h.due
    rw [hdue, Option.toList_some] at hshown
    rw [hshown]
    exact hmirrors.ordered.filter _
  cases hlast : (published events).getLast? with
  | none => exact UInt64.not_lt_zero
  | some last =>
    have hmem : last.event ∈ (published events).map StatusReport.event :=
      List.mem_map_of_mem (List.mem_of_getLast? hlast)
    exact UInt64.lt_asymm
      ((List.pairwise_append.mp hordered).2.2 _ hmem _ (List.mem_singleton_self _))

theorem Shows.step (h : Shows useLaya events service) (hmirrors : Mirrors useLaya events service)
    (hstep : Step answers useLaya config service event next) :
    Shows useLaya (events ++ [event]) next := by
  have hdropped : service.audit.droppedEvents = refused events := h.droppedEvents
  have hnext := hmirrors.step hstep
  cases hstep with
  | quiet arrival hstage =>
    refine h.unseen rfl rfl rfl rfl (by rw [refused_concat]; exact hdropped) ?_
    exact fun report hshowing => absurd (hstage.symm.trans hshowing) (by simp)
  | ignored arrival given hstage _ _ hignored =>
    refine h.unseen rfl rfl ?_ rfl (by rw [refused_concat]; exact hdropped) ?_
    · rw [receive_of_not_accepts _ _ _ hignored]
      exact due_congr rfl rfl
    · exact fun report hshowing => absurd (hstage.symm.trans hshowing) (by simp)
  | heard arrival given hstage _ _ haccepts =>
    have hreceived := receive_of_accepts useLaya service.live given haccepts
    have hidle : service.due = none := due_of_shown (by rw [hstage]; rfl)
    obtain ⟨hjson, hsequence⟩ := @shown_of_unpublished events (.heard arrival given) rfl
    have hshown := h.due
    rw [hidle, Option.toList_none, List.append_nil] at hshown
    exact {
      due := by
        rw [due_of_callback hreceived.callback rfl, published_concat, heard_concat,
          List.filter_append, ← hshown]
        show (published events ++ []).map StatusReport.event ++ _ = _ ++ [given].filter _
        rw [List.append_nil, List.filter_singleton]
        by_cases hdue : Hundredth given
        · rw [if_pos hdue, decide_eq_true hdue]
          rfl
        · rw [if_neg hdue, decide_eq_false hdue]
          rfl
      json := h.json.trans hjson.symm
      sequence := h.sequence.trans hsequence.symm
      droppedEvents := by rw [refused_concat]; exact hdropped
      showing := fun report hshowing => by cases hshowing }
  | took callback hstage hcallback =>
    refine h.unseen rfl rfl (due_congr rfl ?_) rfl (by rw [refused_concat]; exact hdropped) ?_
    · rw [hstage]
      cases ((take useLaya service.live).2.or (produced useLaya callback.event)) <;> rfl
    · intro report hshowing
      cases hmade : (take useLaya service.live).2.or (produced useLaya callback.event) with
      | none => rw [hmade] at hshowing; cases hshowing
      | some made => rw [hmade] at hshowing; cases hshowing
  | decision made hstage =>
    refine h.unseen rfl rfl (due_congr rfl (by rw [hstage]; rfl)) rfl ?_ ?_
    · rw [refused_concat, ← hdropped]
      simp [ServiceEvent.isRefused, droppedEvents_append]
    · exact fun report hshowing => by cases hshowing
  | composed callback hstage hcallback hhundredth =>
    refine h.unseen rfl rfl (due_congr rfl (by rw [hstage]; rfl)) rfl
      (by rw [refused_concat]; exact hdropped) ?_
    intro report hshowing
    obtain rfl := Stage.showing.inj hshowing
    obtain ⟨hheard, hclock⟩ := hmirrors.callback callback hcallback
    have htrue : Truthful useLaya events (service.report useLaya callback) :=
      ⟨hheard, hhundredth, hmirrors.exchange, hmirrors.latest,
        hclock.trans (congrArg _ hmirrors.exchangeClock), hdropped⟩
    exact htrue.unseen rfl rfl rfl rfl
  | published report hstage =>
    obtain ⟨hdue, hstatus⟩ := h.publish hmirrors hstage
    have hlast : (published (events ++ [.published report])).getLast? = some report := by
      rw [published_concat]
      exact List.getLast?_concat
    have hshown := h.due
    rw [hdue, Option.toList_some] at hshown
    exact {
      due := by
        rw [due_of_shown, published_concat, heard_concat]
        · rw [List.map_append]
          show _ ++ [report.event] ++ [] = (Service.heard events ++ []).filter _
          rw [List.append_nil, List.append_nil, hshown]
        · rfl
      json := by
        rw [shownJson, hlast]
        exact congrArg StatusStore.json hstatus
      sequence := by
        rw [shownSequence, hlast]
        exact congrArg StatusStore.sequence hstatus
      droppedEvents := by rw [refused_concat]; exact hdropped
      showing := fun other hshowing => by cases hshowing }
  | acted callback hstage hcallback =>
    have hidle : service.due = none := by
      rcases hstage with hshown | ⟨hdecided, hnot⟩
      · exact due_of_shown (by rw [hshown]; rfl)
      · rw [due_of_callback hcallback (by rw [hdecided]; rfl)]
        exact if_neg hnot
    refine h.unseen rfl rfl ?_ rfl (by rw [refused_concat]; exact hdropped) ?_
    · rw [hidle]
      exact due_of_idle (act_acts service.live callback).callback_eq
    · intro report hshowing
      have hafter : afterAct callback (act service.live callback) = .showing report := hshowing
      have hbusy : (afterAct callback (act service.live callback)).busy = false := busy_afterAct _
      rw [hafter] at hbusy
      cases hbusy
  | order record hstage =>
    refine h.unseen rfl rfl (due_congr rfl (by rw [hstage]; rfl)) rfl ?_ ?_
    · rw [refused_concat, ← hdropped]
      simp [ServiceEvent.isRefused, droppedEvents_append]
    · exact fun report hshowing => by cases hshowing
  | returned hstage =>
    refine h.unseen rfl rfl rfl rfl (by rw [refused_concat]; exact hdropped) ?_
    exact fun report hshowing => absurd (hstage.symm.trans hshowing) (by simp)
  | worked workerEvent worker =>
    refine h.unseen rfl rfl rfl rfl (by rw [refused_concat]; exact hdropped) ?_
    exact fun report hshowing => (h.showing report hshowing).unseen rfl rfl rfl rfl
  | wrote writerEvent audit hquiet _ hwriter =>
    refine h.unseen rfl rfl rfl rfl ?_ ?_
    · rw [refused_concat, ← hdropped]
      exact droppedEvents_of_step hquiet hwriter
    · exact fun report hshowing => (h.showing report hshowing).unseen rfl rfl rfl rfl
  | served request =>
    refine h.unseen rfl rfl rfl rfl (by rw [refused_concat]; exact hdropped) ?_
    exact fun report hshowing => (h.showing report hshowing).unseen rfl rfl rfl rfl

end Steps

end Service
end Astra.Live
