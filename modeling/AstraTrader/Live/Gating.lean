import AstraTrader.Exchange.Protection
import AstraTrader.Live.Loop

/-! The gate of the live loop: over every interleaving each decision is acted on once, in the order
of the states, and an order goes out only for a decision that passes every test. -/

namespace Astra.Live
open Process PaperExchange

namespace LiveEvent

def accepted? : LiveEvent → Option MarketEvent
  | .received event => some event
  | _ => none

def acted? : LiveEvent → Option ModelDecision
  | .finished _ _ acted _ => acted
  | _ => none

/-- The decision that a step puts before the callback. -/
def delivered? (useLaya : Bool) : LiveEvent → Option ModelDecision
  | .received event => produced useLaya event
  | .finished _ taken _ _ => taken
  | _ => none

def exchangeCalls : LiveEvent → List ExchangeCall
  | .ignored event => [.onMarketEvent event]
  | .received event => [.onMarketEvent event]
  | .worked _ => []
  | .finished event _ _ sent => sent.toList.map fun order => .submit order.1 event.receiveTimeNs

end LiveEvent

def heard (events : List LiveEvent) : List MarketEvent := events.filterMap LiveEvent.accepted?

def acted (events : List LiveEvent) : List ModelDecision := events.filterMap LiveEvent.acted?

def delivered (useLaya : Bool) (events : List LiveEvent) : List ModelDecision :=
  events.filterMap (LiveEvent.delivered? useLaya)

def exchangeCalls (events : List LiveEvent) : List ExchangeCall :=
  events.flatMap LiveEvent.exchangeCalls

/-- The exchange and the clock, as the history alone gives them. -/
def exchangeAfter (events : List LiveEvent) : PaperExchange :=
  run exchangeConfig (exchangeCalls events)

def clockAfter (events : List LiveEvent) : ExchangeClock :=
  (heard events).foldl
    (fun clock event => (clock.observe event.exchangeTimeNs event.receiveTimeNs).1) {}

section Histories
variable {events : List LiveEvent} {event : LiveEvent} {useLaya : Bool}

@[simp] theorem heard_concat : heard (events ++ [event]) = heard events ++ event.accepted?.toList :=
  filterMap_concat ..

@[simp] theorem acted_concat : acted (events ++ [event]) = acted events ++ event.acted?.toList :=
  filterMap_concat ..

@[simp] theorem delivered_concat : delivered useLaya (events ++ [event]) =
    delivered useLaya events ++ (event.delivered? useLaya).toList :=
  filterMap_concat ..

theorem exchangeAfter_concat :
    exchangeAfter (events ++ [event]) = event.exchangeCalls.foldl call (exchangeAfter events) := by
  unfold exchangeAfter exchangeCalls
  rw [List.flatMap_append, run_append]
  simp

theorem clockAfter_received (heardEvent : MarketEvent) :
    clockAfter (events ++ [.received heardEvent]) =
      ((clockAfter events).observe heardEvent.exchangeTimeNs heardEvent.receiveTimeNs).1 := by
  unfold clockAfter
  rw [heard_concat]
  exact List.foldl_concat ..

theorem clockAfter_of_unheard (h : event.accepted? = none) :
    clockAfter (events ++ [event]) = clockAfter events := by
  unfold clockAfter
  rw [heard_concat, h]
  simp

end Histories

attribute [simp] LiveEvent.accepted? LiveEvent.acted? LiveEvent.delivered? LiveEvent.exchangeCalls

section Halves
variable (useLaya : Bool) (state : State) (event : MarketEvent) (callback : Callback)

theorem receive_of_not_accepts (h : ¬ state.exchange.accepts event) :
    receive useLaya state event =
      { state with exchange := state.exchange.call (.onMarketEvent event) } := by
  unfold receive
  dsimp only
  rw [if_neg (onMarketEvent_accepted_iff.not.mpr h)]
  rfl

/-- What an accepted event changes besides the features and the worker. -/
structure Received (next : State) : Prop where
  exchange : next.exchange = state.exchange.call (.onMarketEvent event)
  exchangeClock : next.exchangeClock =
    (state.exchangeClock.observe event.exchangeTimeNs event.receiveTimeNs).1
  latestDecision : next.latestDecision = (produced useLaya event).or state.latestDecision
  lastDecisionSequence : next.lastDecisionSequence = state.lastDecisionSequence
  callback : next.callback = some
    { event, position := next.exchange.ledger.state.positionUnits,
      clock := next.exchangeClock.state }

theorem receive_of_accepts (h : state.exchange.accepts event) :
    Received useLaya state event (receive useLaya state event) := by
  unfold receive
  dsimp only
  rw [if_pos (onMarketEvent_accepted_iff.mpr h)]
  refine ⟨rfl, rfl, rfl, rfl, ?_⟩
  rw [ExchangeClock.observe_state]

theorem execute_cases (exchange : PaperExchange) (decision : ModelDecision) :
    execute exchange callback decision = (exchange, none) ∨
      Permitted decision callback.clock ∧ wanted decision.action - callback.position ≠ 0 ∧
        ∃ request, request = orderFor callback.event (wanted decision.action - callback.position) ∧
          execute exchange callback decision =
            ((exchange.submit request callback.event.receiveTimeNs).1,
              some (request, (exchange.submit request callback.event.receiveTimeNs).2)) := by
  unfold execute
  dsimp only
  by_cases h : Permitted decision callback.clock ∧
      wanted decision.action - callback.position ≠ 0
  · rw [if_pos h]
    exact .inr ⟨h.1, h.2, _, rfl, rfl⟩
  · rw [if_neg h]
    exact .inl rfl

/-- The end of a callback: no decision was due, or the latest one is acted on. -/
structure Finished (ending : Ending) : Prop where
  callback_eq : ending.state.callback = none
  exchangeClock : ending.state.exchangeClock = state.exchangeClock
  latestDecision : ending.state.latestDecision = ending.taken.or state.latestDecision
  acts : ending.acted = none ∧ ending.sent = none ∧ ending.state.exchange = state.exchange ∧
      ending.state.lastDecisionSequence = state.lastDecisionSequence ∨
    ∃ decision, ending.state.latestDecision = some decision ∧
      IsDue decision callback.event state.lastDecisionSequence ∧
      ending.acted = some decision ∧
      ending.state.lastDecisionSequence = decision.stateSequence ∧
      (ending.state.exchange, ending.sent) = execute state.exchange callback decision

theorem finish_finished : Finished state callback (finish useLaya state callback) := by
  unfold finish
  generalize (if useLaya then state.modelWorker.tryTake else (state.modelWorker, none)) = took
  obtain ⟨modelWorker, taken⟩ := took
  dsimp only
  cases hlatest : taken.or state.latestDecision with
  | none => exact ⟨rfl, rfl, hlatest.symm, .inl ⟨rfl, rfl, rfl, rfl⟩⟩
  | some decision =>
    dsimp only
    by_cases hdue : IsDue decision callback.event state.lastDecisionSequence
    · rw [if_pos hdue]
      exact ⟨rfl, rfl, hlatest.symm, .inr ⟨decision, rfl, hdue, rfl, rfl, rfl⟩⟩
    · rw [if_neg hdue]
      exact ⟨rfl, rfl, hlatest.symm, .inl ⟨rfl, rfl, rfl, rfl⟩⟩

end Halves

/-- The state is what the history says, and a callback is about the last event heard. -/
structure Mirrored (events : List LiveEvent) (state : State) : Prop where
  exchange : state.exchange = exchangeAfter events
  exchangeClock : state.exchangeClock = clockAfter events
  callback : ∀ callback ∈ state.callback, (heard events).getLast? = some callback.event ∧
    state.exchange.market = some callback.event ∧ callback.clock = state.exchangeClock.state ∧
    callback.position = state.exchange.ledger.state.positionUnits

/-- The latest decision is the last delivered, and it is still to be acted on or no longer due. -/
structure Ordered (useLaya : Bool) (events : List LiveEvent) (state : State) : Prop where
  latest : ∃ earlier, delivered useLaya events = earlier ++ state.latestDecision.toList ∧
    ((acted events).Sublist earlier ∨ (acted events).Sublist (delivered useLaya events) ∧
      ∀ decision ∈ state.latestDecision, decision.stateSequence ≤ state.lastDecisionSequence)
  ordered : (acted events).Pairwise fun a b => a.stateSequence < b.stateSequence
  last : ∀ decision ∈ acted events, decision.stateSequence ≤ state.lastDecisionSequence

section Steps
variable {answers : ModelState → Outcome → Prop} {useLaya : Bool} {events : List LiveEvent}
  {state next : State} {event : LiveEvent}

theorem Mirrored.step (h : Mirrored events state) (hstep : Step answers useLaya state event next) :
    Mirrored (events ++ [event]) next := by
  cases hstep with
  | ignored heardEvent hidle hignored =>
    rw [receive_of_not_accepts _ _ _ hignored]
    refine ⟨?_, ?_, by simp [hidle]⟩
    · rw [exchangeAfter_concat, h.exchange]
      rfl
    · rw [clockAfter_of_unheard rfl]
      exact h.exchangeClock
  | received heardEvent hidle haccepts =>
    have hreceived := receive_of_accepts useLaya state heardEvent haccepts
    refine ⟨?_, ?_, fun callback hcallback => ?_⟩
    · rw [hreceived.exchange, exchangeAfter_concat, h.exchange]
      rfl
    · rw [hreceived.exchangeClock, clockAfter_received, h.exchangeClock]
    · obtain rfl := Option.some.inj (hreceived.callback.symm.trans hcallback)
      refine ⟨by simp, ?_, rfl, rfl⟩
      rw [hreceived.exchange]
      exact call_market_of_accepts haccepts
  | worked workerEvent worker =>
    refine ⟨?_, ?_, by simpa using h.callback⟩
    · rw [exchangeAfter_concat]
      exact h.exchange
    · rw [clockAfter_of_unheard rfl]
      exact h.exchangeClock
  | finished callback hcallback =>
    have hfinished := finish_finished useLaya state callback
    refine ⟨?_, ?_, by simp [hfinished.callback_eq]⟩
    · rw [exchangeAfter_concat, ← h.exchange]
      rcases hfinished.acts with ⟨_, hsent, he, _⟩ | ⟨decision, _, _, _, _, hexecute⟩
      · rw [he, hsent]
        rfl
      · rcases execute_cases callback state.exchange decision with hnone | ⟨_, _, _, _, hsome⟩
        · obtain ⟨he, hsent⟩ := Prod.mk.inj (hexecute.trans hnone)
          rw [he, hsent]
          rfl
        · obtain ⟨he, hsent⟩ := Prod.mk.inj (hexecute.trans hsome)
          rw [he, hsent]
          rfl
    · rw [clockAfter_of_unheard rfl, hfinished.exchangeClock]
      exact h.exchangeClock

theorem Ordered.deliver (h : Ordered useLaya events state) (decision : Option ModelDecision)
    {latest : Option ModelDecision} (hlatest : latest = decision.or state.latestDecision) :
    ∃ earlier, delivered useLaya events ++ decision.toList = earlier ++ latest.toList ∧
      ((acted events).Sublist earlier ∨
        (acted events).Sublist (delivered useLaya events ++ decision.toList) ∧
          ∀ decision ∈ latest, decision.stateSequence ≤ state.lastDecisionSequence) := by
  obtain ⟨earlier, hdelivered, hacted⟩ := h.latest
  subst hlatest
  cases decision with
  | none => exact ⟨earlier, by simpa using hdelivered, by simpa using hacted⟩
  | some decision =>
    refine ⟨delivered useLaya events, rfl, .inl ?_⟩
    rcases hacted with hsub | ⟨hsub, _⟩
    · rw [hdelivered]
      exact hsub.trans (List.sublist_append_left _ _)
    · exact hsub

theorem Ordered.step (h : Ordered useLaya events state)
    (hstep : Step answers useLaya state event next) : Ordered useLaya (events ++ [event]) next := by
  cases hstep with
  | ignored heardEvent _ hignored =>
    rw [receive_of_not_accepts _ _ _ hignored]
    exact ⟨by simpa using h.latest, by simpa using h.ordered, by simpa using h.last⟩
  | received heardEvent _ haccepts =>
    have hreceived := receive_of_accepts useLaya state heardEvent haccepts
    refine ⟨?_, by simpa using h.ordered, ?_⟩
    · rw [hreceived.lastDecisionSequence]
      simpa using h.deliver (produced useLaya heardEvent) hreceived.latestDecision
    · rw [hreceived.lastDecisionSequence]
      simpa using h.last
  | worked workerEvent worker =>
    exact ⟨by simpa using h.latest, by simpa using h.ordered, by simpa using h.last⟩
  | finished callback _ =>
    have hfinished := finish_finished useLaya state callback
    obtain ⟨earlier, hdelivered, hacted⟩ :=
      h.deliver (finish useLaya state callback).taken hfinished.latestDecision
    rcases hfinished.acts with ⟨hnone, _, _, hlast⟩ | ⟨decision, hlatest, hdue, hsome, hlast, _⟩
    · refine ⟨⟨earlier, ?_, ?_⟩, ?_, ?_⟩ <;>
        simp only [delivered_concat, acted_concat, LiveEvent.delivered?, LiveEvent.acted?, hnone,
          Option.toList_none, List.append_nil, hlast]
      · exact hdelivered
      · exact hacted
      · exact h.ordered
      · exact h.last
    · -- a decision that is due was not acted on before
      have hnew : (acted events).Sublist earlier := by
        rcases hacted with hsub | ⟨_, hold⟩
        · exact hsub
        · exact absurd (hold decision hlatest) (UInt64.not_le.mpr hdue.1)
      have hsub : (acted events ++ [decision]).Sublist
          (delivered useLaya events ++ (finish useLaya state callback).taken.toList) := by
        rw [hdelivered, hlatest]
        exact hnew.append (List.Sublist.refl _)
      have hbelow : ∀ earlier ∈ acted events, earlier.stateSequence < decision.stateSequence :=
        fun other hother => UInt64.lt_of_le_of_lt (h.last other hother) hdue.1
      refine ⟨⟨earlier, ?_, .inr ⟨?_, ?_⟩⟩, ?_, ?_⟩ <;>
        simp only [delivered_concat, acted_concat, LiveEvent.delivered?, LiveEvent.acted?, hsome,
          hlast, Option.toList_some]
      · exact hdelivered
      · exact hsub
      · intro other hother
        rw [Option.some.inj (hlatest.symm.trans hother)]
        exact UInt64.le_refl _
      · rw [List.pairwise_append]
        exact ⟨h.ordered, List.pairwise_singleton .., fun other hother _ hlast =>
          List.mem_singleton.mp hlast ▸ hbelow other hother⟩
      · refine List.forall_mem_append.mpr ⟨fun other hother => ?_, ?_⟩
        · exact UInt64.le_of_lt (hbelow other hother)
        · exact List.forall_mem_singleton.mpr (UInt64.le_refl _)

end Steps

theorem mirrored_initial : Mirrored [] initial :=
  ⟨rfl, rfl, fun _ h => absurd h (by simp [initial])⟩

theorem ordered_initial (useLaya : Bool) : Ordered useLaya [] initial :=
  ⟨⟨[], rfl, .inl (List.Sublist.refl _)⟩, List.Pairwise.nil, fun _ h => absurd h (by simp [acted])⟩

/-- The tests that a decision has passed when an order goes out for it at `event`. -/
structure Sanctioned (before : List LiveEvent) (event : MarketEvent) (decision : ModelDecision) :
    Prop where
  heard : (heard before).getLast? = some event
  market : (exchangeAfter before).market = some event
  error : decision.error = ""
  action : decision.action = .longPosition ∧ 550000 ≤ decision.longProbabilityPpm ∨
    decision.action = .shortPosition ∧ 550000 ≤ decision.shortProbabilityPpm
  past : decision.stateSequence ≤ event.sequence
  recent : event.sequence.toNat - decision.stateSequence.toNat ≤ 2500
  stable : (clockAfter before).state.stable = true

structure Gated (useLaya : Bool) (events : List LiveEvent) (state : State) : Prop where
  once : (acted events).Sublist (delivered useLaya events)
  ordered : (acted events).Pairwise fun a b => a.stateSequence < b.stateSequence
  sanctioned : ∀ before event taken acted order after,
    events = before ++ .finished event taken acted (some order) :: after →
    ∃ decision, acted = some decision ∧ Sanctioned before event decision
  calls : state.exchange = exchangeAfter events

theorem Permitted.action {decision : ModelDecision} {clock : ExchangeClockState}
    (h : Permitted decision clock) :
    decision.action = .longPosition ∧ 550000 ≤ decision.longProbabilityPpm ∨
      decision.action = .shortPosition ∧ 550000 ≤ decision.shortProbabilityPpm := by
  obtain ⟨_, hhold, hprobability, _⟩ := h
  unfold ModelDecision.probabilityPpm at hprobability
  cases haction : decision.action with
  | longPosition => exact .inl ⟨rfl, by simpa [haction] using hprobability⟩
  | shortPosition => exact .inr ⟨rfl, by simpa [haction] using hprobability⟩
  | hold => exact absurd haction hhold

theorem sanctioned_of_step {answers : ModelState → Outcome → Prop} {useLaya : Bool}
    {before : List LiveEvent} {state next : State} {event : MarketEvent}
    {taken acted : Option ModelDecision} {order : OrderRequest × SubmitResult}
    (h : Mirrored before state)
    (hstep : Step answers useLaya state (.finished event taken acted (some order)) next) :
    ∃ decision, acted = some decision ∧ Sanctioned before event decision := by
  generalize hlabel : LiveEvent.finished event taken acted (some order) = label at hstep
  cases hstep with
  | ignored => cases hlabel
  | received => cases hlabel
  | worked => cases hlabel
  | finished callback hcallback =>
    obtain ⟨rfl, _, rfl, hsent⟩ := LiveEvent.finished.inj hlabel
    obtain ⟨hheard, hmarket, hclock, _⟩ := h.callback callback hcallback
    rcases (finish_finished useLaya state callback).acts with
      ⟨_, hnone, _⟩ | ⟨decision, _, hdue, hacted, _, hexecute⟩
    · exact absurd (hsent.trans hnone) (by simp)
    · refine ⟨decision, hacted, ?_⟩
      rcases execute_cases callback state.exchange decision with
        hnone | ⟨hpermitted, _⟩
      · rw [hnone, ← hsent] at hexecute
        exact absurd (Prod.mk.inj hexecute).2 (by simp)
      · exact {
          heard := hheard
          market := h.exchange ▸ hmarket
          error := by simpa [ModelDecision.succeeded] using hpermitted.1
          action := hpermitted.action
          past := hdue.2.1
          recent := by
            have hle := UInt64.le_iff_toNat_le.mp hdue.2.2
            rwa [UInt64.toNat_sub_of_le _ _ hdue.2.1] at hle
          stable := by
            rw [← h.exchangeClock, ← hclock]
            exact hpermitted.2.2.2 }

theorem trace_gated (answers : ModelState → Outcome → Prop) (useLaya : Bool)
    (events : List LiveEvent) (state : State)
    (htrace : Trace (Step answers useLaya) initial events state) : Gated useLaya events state := by
  have hmirrored : ∀ {before : List LiveEvent} {reached : State},
      Trace (Step answers useLaya) initial before reached → Mirrored before reached :=
    fun hreached => hreached.invariant mirrored_initial fun h hstep => h.step hstep
  have hordered := htrace.invariant (ordered_initial useLaya) fun h hstep => h.step hstep
  exact {
    once := by
      obtain ⟨earlier, hdelivered, hsub | ⟨hsub, _⟩⟩ := hordered.latest
      · rw [hdelivered]
        exact hsub.trans (List.sublist_append_left _ _)
      · exact hsub
    ordered := hordered.ordered
    sanctioned := by
      rintro before event taken acted order after rfl
      obtain ⟨reached, next, hbefore, hstep⟩ := htrace.step_of_split
      exact sanctioned_of_step (hmirrored hbefore) hstep
    calls := (hmirrored htrace).exchange }

/-- A callback that the worker's thread does not interrupt. -/
def uninterrupted (useLaya : Bool) (run : List LiveEvent × State) (event : MarketEvent) :
    List LiveEvent × State :=
  let next := receive useLaya run.2 event
  match next.callback with
  | none => (run.1 ++ [.ignored event], next)
  | some callback =>
    let ending := finish useLaya next callback
    (run.1 ++ [.received event] ++
      [.finished callback.event ending.taken ending.acted ending.sent], ending.state)

/-- Among the interleavings is the one in which only the feed's thread runs. -/
theorem trace_uninterrupted (answers : ModelState → Outcome → Prop) (useLaya : Bool)
    (feed : List MarketEvent) :
    Trace (Step answers useLaya) initial (feed.foldl (uninterrupted useLaya) ([], initial)).1
      (feed.foldl (uninterrupted useLaya) ([], initial)).2 := by
  refine (@run_invariant_of_forall _ _ (uninterrupted useLaya)
    (fun run => Trace (Step answers useLaya) initial run.1 run.2 ∧ run.2.callback = none)
    (fun run event ⟨htrace, hidle⟩ => ?_) _ ⟨.nil, rfl⟩ feed).1
  unfold uninterrupted
  by_cases haccepts : run.2.exchange.accepts event
  · have hcallback := (receive_of_accepts useLaya run.2 event haccepts).callback
    dsimp only
    rw [hcallback]
    exact ⟨(htrace.snoc (.received _ event hidle haccepts)).snoc (.finished _ _ hcallback),
      (finish_finished useLaya _ _).callback_eq⟩
  · have hcallback : (receive useLaya run.2 event).callback = none := by
      rw [receive_of_not_accepts _ _ _ haccepts]
      exact hidle
    dsimp only
    rw [hcallback]
    exact ⟨htrace.snoc (.ignored _ event hidle haccepts), hcallback⟩

/-- After a warm-up the worker answers between the halves of a callback, which acts on it. -/
theorem trace_gated_published :
    let event : MarketEvent := { sequence := 1000, exchangeTimeNs := 1, receiveTimeNs := 1
                                 bestBidUnits := 10000000, bestAskUnits := 10000100 }
    let warm := ((List.range 99).map fun k => { event with sequence := 901 + k.toUInt64 }).foldl
      (uninterrupted true) ([], initial)
    ∃ events state, state.exchange.ledger.state.positionUnits = 1 ∧
      Gated true (warm.1 ++ events) state := by
  intro event warm
  let answer : ModelDecision :=
    { action := .longPosition, longProbabilityPpm := 600000, stateSequence := 1000 }
  let next := receive true warm.2 event
  have hreceived := (trace_uninterrupted (fun _ outcome => outcome = .decision answer) true
    ((List.range 99).map fun k => { event with sequence := 901 + k.toUInt64 })).snoc
    (.received _ event (by decide +kernel) (by decide +kernel))
  have htaken := hreceived.snoc (.worked _ _ _ (.inl rfl)
    (.take _ (next.modelWorker.pending.getD {}) (by decide +kernel) (by decide +kernel)
      (by decide +kernel) (by decide +kernel)))
  have hpublished := htaken.snoc
    (.worked _ _ _ (.inr rfl) (.publish _ _ (.decision answer) rfl rfl))
  have hfinished := hpublished.snoc
    (.finished _ { event, position := 0, clock := next.exchangeClock.state } (by decide +kernel))
  rw [List.append_assoc, List.append_assoc, List.append_assoc] at hfinished
  exact ⟨_, _, by decide +kernel, trace_gated _ _ _ _ hfinished⟩

end Astra.Live
