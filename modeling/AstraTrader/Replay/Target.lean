import AstraTrader.Replay.Waiting

/-! The replay tracks its target: while every row comes late enough for the order that it meets,
one order at most is live, and the position is where the last decision wants it. -/

namespace Astra.Replay
open Process FixedWidth PaperExchange

/-- A row comes late enough for the order that it meets: the one that its own turn sends, or one
that waits since a row that the exchange ignored. -/
def Timely (options : Options) (state : State) (event : MarketEvent) : Prop :=
  inWindow options event → state.exchange.accepts event →
    (∀ pending ∈ state.pendingDecision, Sends state pending →
      state.exchange.Stores (sentOrder state pending) pending.decisionTimeNs →
        pending.decisionTimeNs < event.receiveTimeNs) ∧
    ∀ order ∈ state.exchange.orders, order.isLive = true →
      order.activeTimeNs ≤ event.receiveTimeNs

instance (options : Options) (state : State) (event : MarketEvent) :
    Decidable (Timely options state event) := inferInstanceAs (Decidable (_ → _))

section Turns
variable {options : Options} {state : State} {pending : PendingDecision}

theorem submit_quiet {exchange : PaperExchange}
    (h : Consistent (exchangeConfig options) exchange) (request : OrderRequest)
    (decisionTimeNs : Int64) :
    (exchange.call (.submit request decisionTimeNs)).toExecutions = exchange.toExecutions ∧
      exchange.orders <+: (exchange.call (.submit request decisionTimeNs)).orders := by
  have hlatency := latency_ne_zero options h
  rcases submit_cases exchange request decisionTimeNs with he | ⟨market, _, he⟩
  · rw [call, he]
    exact ⟨rfl, List.prefix_refl _⟩
  · rw [call, he, store_eq, if_neg hlatency]
    exact ⟨rfl, List.prefix_append _ _⟩

theorem settlePending_quiet (h : Consistent (exchangeConfig options) state.exchange) :
    (settlePending state).exchange.toExecutions = state.exchange.toExecutions ∧
      state.exchange.orders <+: (settlePending state).exchange.orders := by
  rcases sends_or_idle state with ⟨pending, hsends⟩ | hidle
  · rw [(settlePending_of_sends state hsends).1]
    exact submit_quiet h _ _
  · rw [(settlePending_of_idle state hidle).1]
    exact ⟨rfl, List.prefix_refl _⟩

theorem settlePending_of_none (h : state.pendingDecision = none) : settlePending state = state := by
  unfold settlePending
  rw [h]

/-- Between two turns nothing is live, or one order waits since a row that was ignored. -/
inductive Phase (state : State) : Prop
  | idle : Settled state.exchange.orders → Phase state
  | waiting (order : PaperOrder) (action : ModelAction) : state.pendingDecision = none →
      Waiting state.exchange order action → Phase state

structure Tracking (options : Options) (rows : List MarketEvent) (state : State) : Prop
    extends Traced options rows state where
  position : OnTarget state.exchange.ledger.state.positionUnits
  phase : Phase state

variable {rows : List MarketEvent} {event : MarketEvent}

theorem Tracking.settled (h : Tracking options rows state)
    (hpending : state.pendingDecision = some pending) : Settled state.exchange.orders := by
  cases h.phase with
  | idle hsettled => exact hsettled
  | waiting order action hnone => exact absurd (hnone.symm.trans hpending) (by simp)

theorem Tracking.sent (h : Tracking options rows state) (hsends : Sends state pending) :
    (settlePending state).exchange = state.exchange ∧
        (settlePending state).metrics.rejectedOrders = state.metrics.rejectedOrders + 1 ∨
      state.exchange.Stores (sentOrder state pending) pending.decisionTimeNs ∧
        (settlePending state).exchange.toExecutions = state.exchange.toExecutions ∧
        ∃ order, Waiting (settlePending state).exchange order pending.decision.action ∧
          (settlePending state).exchange.orders = state.exchange.orders ++ [order] ∧
          order.request = sentOrder state pending ∧
          order.remainingQuantityUnits = (sentOrder state pending).quantityUnits ∧
          order.activeTimeNs = pending.decisionTimeNs + 1 := by
  obtain ⟨hexchange, _, hrejected⟩ := settlePending_of_sends state hsends
  have hunknown : state.exchange.findOrder (sentOrder state pending).clientOrderId = none :=
    h.consistent.indexed.findOrder_eq_none (h.fresh pending hsends.1)
  rcases submit_outcome state.exchange (sentOrder state pending) pending.decisionTimeNs with
    ⟨i, order, hfind, _⟩ | ⟨he, hstatus, _⟩ | ⟨market, stored, hadmitted, hstore, _⟩
  · exact absurd (hunknown.symm.trans hfind) (by simp)
  · exact .inl ⟨hexchange.trans he, by rw [hrejected, if_pos hstatus]⟩
  · right
    have hlatency := latency_ne_zero options h.consistent
    obtain ⟨hplaced, hremaining⟩ := place_of_step_one (by rw [h.consistent.config_eq]; rfl)
      (sentOrder state pending) pending.decisionTimeNs
    obtain ⟨hpos, hreaches⟩ := distance_reaches h.position.abs_lt
      (h.position.target pending.decision.action).abs_lt rfl hsends.2.2
    have hstored : (settlePending state).exchange = state.exchange.append
        (state.exchange.place (sentOrder state pending) pending.decisionTimeNs) := by
      rw [hexchange, call, hadmitted.submit_eq, store, if_neg hlatency]
      rfl
    rw [hstored]
    refine ⟨stores_iff.mpr ⟨market, hadmitted⟩, rfl, _, ?_, rfl, hplaced, hremaining, ?_⟩
    · refine ⟨⟨state.exchange.orders, rfl, h.settled hsends.1⟩, rfl, rfl, ?_, ?_⟩
      · rw [hremaining]
        exact hpos
      · rw [hplaced, hremaining]
        exact hreaches
    · rw [place, h.consistent.config_eq]
      rfl

theorem Tracking.settlePending (h : Tracking options rows state) :
    Tracking options rows (settlePending state) := by
  have hquiet := (settlePending_quiet h.consistent).1
  refine ⟨h.toTraced.settlePending, ?_, ?_⟩
  · rw [hquiet]
    exact h.position
  · rcases sends_or_idle state with ⟨pending, hsends⟩ | hidle
    · rcases h.sent hsends with ⟨he, _⟩ | ⟨_, _, order, hwaiting, _⟩
      · exact .idle (he ▸ h.settled hsends.1)
      · exact .waiting order _ (settlePending_pending state) hwaiting
    · have he := (settlePending_of_idle state hidle).1
      cases h.phase with
      | idle hsettled => exact .idle (he ▸ hsettled)
      | waiting order action _ hwaiting =>
        exact .waiting order action (settlePending_pending state) (he ▸ hwaiting)

theorem Tracking.accepts_iff (h : Tracking options rows state) :
    (Replay.settlePending state).exchange.accepts event ↔ state.exchange.accepts event := by
  have hmarket : (Replay.settlePending state).exchange.market = state.exchange.market := by
    rcases sends_or_idle state with ⟨pending, hsends⟩ | hidle
    · rw [(settlePending_of_sends state hsends).1]
      rcases call_market state.exchange (.submit (sentOrder state pending) pending.decisionTimeNs)
        with he | ⟨_, hcall, _⟩
      · exact he
      · exact ExchangeCall.noConfusion hcall
    · rw [(settlePending_of_idle state hidle).1]
  have hvalid : (Replay.settlePending state).exchange.configValid = state.exchange.configValid :=
    h.settlePending.configValid.trans h.configValid.symm
  simp only [accepts, hmarket, hvalid]

theorem Tracking.due (h : Tracking options rows state) (htimely : Timely options state event)
    (hwindow : inWindow options event)
    (haccepts : (Replay.settlePending state).exchange.accepts event) :
    ∀ order ∈ (Replay.settlePending state).exchange.orders, order.isLive = true →
      order.activeTimeNs ≤ event.receiveTimeNs := by
  obtain ⟨hsent, hwaiting⟩ := htimely hwindow (h.accepts_iff.mp haccepts)
  intro order horder hlive
  rcases sends_or_idle state with ⟨pending, hsends⟩ | hidle
  · rcases h.sent hsends with ⟨he, _⟩ | ⟨hstores, _, last, hlast, _, _, _, hactive⟩
    · rw [he] at horder
      exact hwaiting order horder hlive
    · rw [hlast.eq_of_isLive horder hlive, hactive]
      exact int64_add_one_le_of_lt (hsent pending hsends.1 hsends hstores)
  · rw [(settlePending_of_idle state hidle).1] at horder
    exact hwaiting order horder hlive

theorem hear_ignored (h : ¬ state.exchange.accepts event) :
    (hear options state event).exchange.toExecutions = state.exchange.toExecutions ∧
      (hear options state event).exchange.orders = state.exchange.orders ∧
      (hear options state event).pendingDecision = state.pendingDecision := by
  rw [hear_of_not_accepts _ _ _ h, call_of_ignored h]
  exact ⟨rfl, rfl, rfl⟩

theorem Tracking.heard (h : Tracking options rows state) (hnone : state.pendingDecision = none)
    (hdue : state.exchange.accepts event → ∀ order ∈ state.exchange.orders,
      order.isLive = true → order.activeTimeNs ≤ event.receiveTimeNs) :
    OnTarget (hear options state event).exchange.ledger.state.positionUnits ∧
      Phase (hear options state event) := by
  rw [hear_exchange]
  cases h.phase with
  | idle hsettled =>
    obtain ⟨horders, hposition⟩ := @settled_heard state.exchange event _ h.consistent hsettled
    refine ⟨by rw [hposition]; exact h.position, .idle ?_⟩
    rw [hear_exchange, horders]
    exact hsettled
  | waiting order action _ hwaiting =>
    by_cases haccepts : state.exchange.accepts event
    · obtain ⟨hsettled, hreached⟩ := hwaiting.heard h.consistent haccepts
        (hdue haccepts order hwaiting.mem hwaiting.isLive)
      refine ⟨?_, .idle (by rwa [hear_exchange])⟩
      rcases hreached with he | ⟨he, _⟩
      · rw [he]
        exact h.position.target action
      · rw [he]
        exact h.position
    · refine ⟨?_, .waiting order action ?_ ?_⟩
      · rw [call_of_ignored haccepts]
        exact h.position
      · exact (hear_ignored haccepts).2.2.trans hnone
      · rw [hear_exchange]
        exact hwaiting.ignored haccepts

theorem Tracking.step (h : Tracking options rows (replay options rows))
    (htimely : Timely options (replay options rows) event) :
    Tracking options (rows ++ [event]) (replay options (rows ++ [event])) := by
  suffices hnext : OnTarget (replay options (rows ++ [event])).exchange.ledger.state.positionUnits ∧
      Phase (replay options (rows ++ [event])) from ⟨traced_replay options _, hnext.1, hnext.2⟩
  rw [replay_concat]
  by_cases hwindow : inWindow options event
  · rw [step_of_inWindow _ _ _ hwindow]
    exact h.settlePending.heard (settlePending_pending _) (h.due htimely hwindow)
  · rw [step_of_not_inWindow _ _ _ hwindow]
    exact ⟨h.position, h.phase⟩

theorem tracking_nil : Tracking options [] (replay options []) :=
  ⟨traced_replay options [], .inr (.inl rfl), .idle fun order horder =>
    absurd horder (by simp [replay, initial, PaperExchange.new])⟩

theorem tracking_replay
    (h : AllSteps (Replay.step options) (Timely options) (initial options) rows) :
    Tracking options rows (replay options rows) := by
  induction rows using List.reverseRecOn with
  | nil => exact tracking_nil
  | append_singleton rows row ih =>
    obtain ⟨hrows, hrow, _⟩ := AllSteps.append.mp h
    exact (ih hrows).step hrow

/-- A decision on its way: its order waits, or the position needed none. -/
inductive Bound (pending : PendingDecision) (state : State) : Prop
  | there : Settled state.exchange.orders →
      AtTarget pending.decision.action state.exchange.ledger.state.positionUnits →
      Bound pending state
  | waiting (order : PaperOrder) : Waiting state.exchange order pending.decision.action →
      order.request.clientOrderId = clientOrderId pending.decision.stateSequence →
      Bound pending state

/-- The decision has come to its target, or the fill of its order was rejected. -/
def Arrived (pending : PendingDecision) (state : State) : Prop :=
  AtTarget pending.decision.action state.exchange.ledger.state.positionUnits ∨
    ∃ order ∈ state.exchange.orders, order.status = .rejected ∧
      order.request.clientOrderId = clientOrderId pending.decision.stateSequence

/-- A decision is kept that succeeded, and `submit` does not reject the order for it. -/
structure Acts (state : State) (pending : PendingDecision) : Prop where
  kept : state.pendingDecision = some pending
  succeeded : pending.decision.succeeded = true
  accepted : (settlePending state).metrics.rejectedOrders = state.metrics.rejectedOrders

theorem Tracking.bound (h : Tracking options rows state) (hacts : Acts state pending) :
    Bound pending (Replay.settlePending state) := by
  by_cases hsends : Sends state pending
  · rcases h.sent hsends with ⟨_, hrejected⟩ | ⟨_, _, order, hwaiting, _, hrequest, _⟩
    · rw [hacts.accepted] at hrejected
      exact absurd hrejected (Nat.ne_of_lt (Nat.lt_succ_self _))
    · exact .waiting order hwaiting (by rw [hrequest]; rfl)
  · have hidle : ∀ other, ¬ Sends state other := by
      rintro other hother
      obtain rfl : other = pending := Option.some.inj (hother.1.symm.trans hacts.kept)
      exact hsends hother
    have hzero : distance state pending = 0 :=
      not_not.mp fun hne => hsends ⟨hacts.kept, hacts.succeeded, hne⟩
    have he := (settlePending_of_idle state hidle).1
    refine .there (he ▸ h.settled hacts.kept) ?_
    rw [he]
    exact distance_eq_zero.mp hzero

theorem Bound.ignored (h : Bound pending state) (hignored : ¬ state.exchange.accepts event) :
    Bound pending (hear options state event) := by
  obtain ⟨hbooks, horders, _⟩ := @hear_ignored options state event hignored
  cases h with
  | there hsettled htarget => exact .there (horders ▸ hsettled) (hbooks ▸ htarget)
  | waiting order hwaiting hname =>
    refine .waiting order ?_ hname
    rw [hear_exchange]
    exact hwaiting.ignored hignored

theorem Bound.heard (h : Bound pending state)
    (hconsistent : Consistent (exchangeConfig options) state.exchange)
    (haccepts : state.exchange.accepts event)
    (hdue : ∀ order ∈ state.exchange.orders, order.isLive = true →
      order.activeTimeNs ≤ event.receiveTimeNs) : Arrived pending (hear options state event) := by
  unfold Arrived
  rw [hear_exchange]
  cases h with
  | there hsettled htarget =>
    rw [(settled_heard hconsistent hsettled).2]
    exact .inl htarget
  | waiting order hwaiting hname =>
    obtain ⟨_, hreached⟩ := hwaiting.heard hconsistent haccepts
      (hdue order hwaiting.mem hwaiting.isLive)
    rcases hreached with he | ⟨_, rejected, hmem, hrequest, hstatus⟩
    · rw [he]
      exact .inl (target_target _ _)
    · exact .inr ⟨rejected, hmem, hstatus, hrequest ▸ hname⟩

theorem Arrived.settlePending (h : Arrived pending state)
    (hconsistent : Consistent (exchangeConfig options) state.exchange) :
    Arrived pending (settlePending state) := by
  obtain ⟨hbooks, horders⟩ := settlePending_quiet hconsistent
  rcases h with htarget | ⟨order, hmem, hrest⟩
  · exact .inl (hbooks ▸ htarget)
  · exact .inr ⟨order, horders.subset hmem, hrest⟩

theorem Arrived.ignored (h : Arrived pending state) (hignored : ¬ state.exchange.accepts event) :
    Arrived pending (hear options state event) := by
  obtain ⟨hbooks, horders, _⟩ := @hear_ignored options state event hignored
  unfold Arrived
  rw [hbooks, horders]
  exact h

/-- How far a decision kept at `start` has come, by the number of events accepted since. -/
structure Underway (pending : PendingDecision) (start state : State) : Prop where
  events : start.metrics.events ≤ state.metrics.events
  before : state.metrics.events = start.metrics.events →
    state = start ∨ state.pendingDecision = none ∧ Bound pending state
  after : state.metrics.events = start.metrics.events + 1 → Arrived pending state

theorem Underway.step {start : State} (h : Underway pending start state)
    (hacts : Acts start pending) (hstart : Tracking options rows start)
    {seen : List MarketEvent} (hstate : Tracking options seen state)
    (htimely : Timely options state event) : Underway pending start (step options state event) := by
  by_cases hwindow : inWindow options event
  · rw [step_of_inWindow _ _ _ hwindow]
    have hevents := @hear_events options (settlePending state) event
    rw [settlePending_events] at hevents
    -- until an event is accepted the turn's order, or the one sent before, is on its way
    have hbound : state.metrics.events = start.metrics.events →
        Bound pending (settlePending state) := by
      intro he
      rcases h.before he with rfl | ⟨hnone, hbound⟩
      · exact hstart.bound hacts
      · rwa [settlePending_of_none hnone]
    have hle := h.events
    by_cases haccepts : (settlePending state).exchange.accepts event
    · rw [if_pos haccepts] at hevents
      refine ⟨by omega, fun he => by omega, fun he => ?_⟩
      exact (hbound (by omega)).heard hstate.settlePending.consistent haccepts
        (hstate.due htimely hwindow haccepts)
    · rw [if_neg haccepts] at hevents
      refine ⟨by omega, fun he => .inr ⟨?_, ?_⟩, fun he => ?_⟩
      · exact (hear_ignored haccepts).2.2.trans (settlePending_pending state)
      · exact (hbound (by omega)).ignored haccepts
      · exact ((h.after (by omega)).settlePending hstate.consistent).ignored haccepts
  · rwa [step_of_not_inWindow _ _ _ hwindow]

theorem underway_replay {mid : List MarketEvent}
    (h : AllSteps (step options) (Timely options) (initial options) (rows ++ mid))
    (hacts : Acts (replay options rows) pending) :
    Underway pending (replay options rows) (replay options (rows ++ mid)) := by
  induction mid using List.reverseRecOn with
  | nil =>
    rw [List.append_nil]
    exact ⟨Nat.le_refl _, fun _ => .inl rfl,
      fun he => absurd he (Nat.ne_of_lt (Nat.lt_succ_self _))⟩
  | append_singleton mid row ih =>
    rw [← List.append_assoc] at h ⊢
    obtain ⟨hrows, hrow, _⟩ := AllSteps.append.mp h
    rw [replay_concat]
    exact (ih hrows).step hacts (tracking_replay (AllSteps.append.mp hrows).1)
      (tracking_replay hrows) hrow

end Turns

def liveOrders (exchange : PaperExchange) : List PaperOrder := exchange.orders.filter (·.isLive)

/-- What the loop is for: after every row, and after the order of the next turn is sent, one order
at most is live and the position is a target; and a decision whose order is not refused takes the
position to its target with the next event accepted, unless the fill is rejected. -/
structure Tracks (options : Options) (rows : List MarketEvent) : Prop where
  oneLive : ∀ seen later, rows = seen ++ later →
    (liveOrders (replay options seen).exchange).length ≤ 1 ∧
      (liveOrders (settlePending (replay options seen)).exchange).length ≤ 1
  position : ∀ seen later, rows = seen ++ later →
    (replay options seen).exchange.ledger.state.positionUnits ∈ [-100, 0, 100]
  reaches : ∀ seen mid later pending, rows = seen ++ mid ++ later →
    Acts (replay options seen) pending →
    (replay options (seen ++ mid)).metrics.events = (replay options seen).metrics.events + 1 →
    Arrived pending (replay options (seen ++ mid))

theorem Tracking.oneLive {options : Options} {rows : List MarketEvent} {state : State}
    (h : Tracking options rows state) : (liveOrders state.exchange).length ≤ 1 := by
  have hempty : ∀ {orders : List PaperOrder}, Settled orders → orders.filter (·.isLive) = [] :=
    fun hsettled => List.filter_eq_nil_iff.mpr fun order horder => by simp [hsettled order horder]
  unfold liveOrders
  cases h.phase with
  | idle hsettled => simp [hempty hsettled]
  | waiting order action _ hwaiting =>
    obtain ⟨pre, horders, hsettled⟩ := hwaiting.last
    rw [horders, List.filter_append, hempty hsettled, List.nil_append]
    exact List.length_filter_le _ _

theorem replay_tracks (options : Options) (rows : List MarketEvent)
    (h : AllSteps (step options) (Timely options) (initial options) rows) :
    Tracks options rows where
  oneLive seen later hrows := by
    subst hrows
    have htracking := tracking_replay (AllSteps.append.mp h).1
    exact ⟨htracking.oneLive, htracking.settlePending.oneLive⟩
  position seen later hrows := by
    subst hrows
    rcases (tracking_replay (AllSteps.append.mp h).1).position with he | he | he
    · rw [he]
      decide
    · rw [he]
      decide
    · rw [he]
      decide
  reaches seen mid later pending hrows hacts hevents := by
    subst hrows
    exact (underway_replay (AllSteps.append.mp h).1 hacts).after hevents

/-- Long, then short: the second row fills the first order, the third turns the position. -/
theorem replay_tracks_reversal :
    let row : MarketEvent := { sequence := 1, exchangeTimeNs := 1000, receiveTimeNs := 1001000
                               bestBidUnits := 10000, bestAskUnits := 10001, bidQuantityUnits := 9 }
    Tracks { decisionEvery := 1 }
      [row,
       { row with sequence := 2, exchangeTimeNs := 2000, receiveTimeNs := 1002000
                  bidQuantityUnits := 0, askQuantityUnits := 9 },
       { row with sequence := 3, exchangeTimeNs := 3000, receiveTimeNs := 1003000 }] := by
  intro row
  exact replay_tracks _ _ (by decide +kernel)

/-- Three rows of one exchange time: the order of the first is still unacknowledged when the second
and the third ask for as much again. -/
theorem not_forall_tracks : ¬ ∀ (options : Options) (fields : List RowFields)
    (rows : List MarketEvent), fields.mapM (parseRow options.feedLatencyNs) = some rows →
    rows.Pairwise (·.sequence < ·.sequence) → Tracks options rows := by
  intro h
  let row : RowFields :=
    { sequence := 1, exchangeTimeNs := 1000, bestBidUnits := 10000, bestAskUnits := 10001
      bidQuantityUnits := 9, askQuantityUnits := 0, tradePriceUnits := 0, tradeQuantityUnits := 0
      aggressor := "none" }
  let heard : MarketEvent :=
    { sequence := 1, exchangeTimeNs := 1000, receiveTimeNs := 1001000, bestBidUnits := 10000
      bestAskUnits := 10001, bidQuantityUnits := 9 }
  have htracks := h { decisionEvery := 1 }
    [row, { row with sequence := 2 }, { row with sequence := 3 },
     { row with sequence := 4, exchangeTimeNs := 2000 }]
    [heard, { heard with sequence := 2 }, { heard with sequence := 3 },
     { heard with sequence := 4, exchangeTimeNs := 2000, receiveTimeNs := 1002000 }]
    (by decide +kernel) (by decide +kernel)
  exact absurd (htracks.position _ [] (List.append_nil _).symm) (by decide +kernel)

end Astra.Replay
