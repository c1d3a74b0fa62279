import AstraTrader.Exchange.MarketOrders
import AstraTrader.Live.Gating

/-! The exposure of the live loop: orders are settled as they are sent, so that a callback leaves
the position where it is or takes it to the side of the decision it acted on. -/

namespace Astra.Live
open Process FixedWidth PaperExchange

/-- The positions that the loop holds. -/
def OnSide (position : Int64) : Prop := position = -1 ∨ position = 0 ∨ position = 1

theorem OnSide.abs_lt {position : Int64} (h : OnSide position) : |position.toInt| < 2 ^ 62 := by
  rcases h with rfl | rfl | rfl <;> decide

theorem onSide_wanted (action : ModelAction) : OnSide (wanted action) := by
  unfold wanted
  split_ifs
  · exact .inr (.inr rfl)
  · exact .inl rfl

theorem clientOrderId_injective {a b : UInt64} (h : clientOrderId a = clientOrderId b) : a = b :=
  UInt64.toNat_inj.mp (toString_injective ((String.append_right_inj _).mp h))

/-- An order that is done with, not cancelled. -/
def Done (order : PaperOrder) : Prop := order.status = .filled ∨ order.status = .rejected

theorem settled_of_done {orders : List PaperOrder} (h : ∀ order ∈ orders, Done order) :
    Settled orders := by
  intro order horder
  rcases h order horder with hstatus | hstatus <;> simp [PaperOrder.isLive, isTerminal, hstatus]

/-- What the exchange looks like between two steps of the loop. -/
structure Quiet (exchange : PaperExchange) : Prop where
  consistent : Consistent exchangeConfig exchange
  done : ∀ order ∈ exchange.orders, Done order
  position : OnSide exchange.ledger.state.positionUnits
  named : ∀ order ∈ exchange.orders, ∃ event market,
    order.request.clientOrderId = clientOrderId event ∧ exchange.market = some market ∧
      event ≤ market.sequence

/-- No order bears the name that the callback under way would give. -/
def Fresh (exchange : PaperExchange) (callback : Callback) : Prop :=
  ∀ order ∈ exchange.orders, order.request.clientOrderId ≠ clientOrderId callback.event.sequence

section Exchanges
variable {exchange : PaperExchange} {event : MarketEvent}

theorem Quiet.heard (h : Quiet exchange) : Quiet (exchange.call (.onMarketEvent event)) ∧
    (exchange.call (.onMarketEvent event)).ledger.state.positionUnits =
      exchange.ledger.state.positionUnits := by
  obtain ⟨horders, hposition⟩ :=
    @settled_heard exchange event _ h.consistent (settled_of_done h.done)
  refine ⟨⟨h.consistent.call _, ?_, by rw [hposition]; exact h.position, ?_⟩, hposition⟩
  · rw [horders]
    exact h.done
  · rw [horders]
    intro order horder
    obtain ⟨sequence, market, hname, hmarket, hle⟩ := h.named order horder
    rcases call_market exchange (.onMarketEvent event) with he | ⟨other, hcall, haccepts, he⟩
    · exact ⟨sequence, market, hname, he.trans hmarket, hle⟩
    · exact ⟨sequence, other, hname, he,
        UInt64.le_of_lt (UInt64.lt_of_le_of_lt hle (haccepts.2.2.1 market hmarket))⟩

theorem Quiet.fresh (h : Quiet exchange) (haccepts : exchange.accepts event) {callback : Callback}
    (hevent : callback.event = event) :
    Fresh (exchange.call (.onMarketEvent event)) callback := by
  unfold Fresh
  rw [(settled_heard h.consistent (settled_of_done h.done)).1]
  intro order horder hsame
  obtain ⟨sequence, market, hname, hmarket, hle⟩ := h.named order horder
  have hlt := UInt64.lt_of_le_of_lt hle (haccepts.2.2.1 market hmarket)
  rw [hname, hevent] at hsame
  exact UInt64.ne_of_lt hlt (clientOrderId_injective hsame)

variable {callback : Callback} {decision : ModelDecision}

theorem Quiet.submitted (h : Quiet exchange) (hmarket : exchange.market = some callback.event)
    (hposition : callback.position = exchange.ledger.state.positionUnits)
    (hfresh : Fresh exchange callback) (hne : wanted decision.action - callback.position ≠ 0)
    {request : OrderRequest}
    (hrequest : request = orderFor callback.event (wanted decision.action - callback.position)) :
    Quiet (exchange.submit request callback.event.receiveTimeNs).1 ∧
      (exchange.submit request callback.event.receiveTimeNs).2.duplicate = false ∧
      ((exchange.submit request callback.event.receiveTimeNs).1.ledger.state.positionUnits =
          exchange.ledger.state.positionUnits ∨
        (exchange.submit request callback.event.receiveTimeNs).1.ledger.state.positionUnits =
          wanted decision.action) := by
  rcases submit_outcome exchange request callback.event.receiveTimeNs with
    ⟨i, order, hfind, _⟩ | ⟨he, _, hduplicate⟩ | ⟨market, stored, hadmitted, _, hresult⟩
  · have hunknown := h.consistent.indexed.findOrder_eq_none hfresh
    rw [hrequest] at hfind
    exact absurd (hunknown.symm.trans hfind) (by simp)
  · rw [he]
    exact ⟨h, hduplicate, .inl rfl⟩
  · obtain rfl := Option.some.inj (hmarket.symm.trans hadmitted.heard)
    have hconfig := h.consistent.config_eq
    obtain ⟨cell, houtcome, hsubmitted⟩ := submit_atOnce hadmitted (by rw [hconfig]; rfl)
      (by rw [hrequest]; rfl) (Int64.le_refl _)
    have hconsistent := h.consistent.call (.submit request callback.event.receiveTimeNs)
    rw [call, hsubmitted] at hconsistent
    obtain ⟨hplaced, hremaining⟩ := place_of_step_one (by rw [hconfig]; rfl) request
      callback.event.receiveTimeNs
    obtain ⟨hpos, hreaches⟩ := distance_reaches h.position.abs_lt
      (onSide_wanted decision.action).abs_lt rfl (by rw [← hposition]; exact hne)
    -- the order is rejected with the books as they were, or it brings the position wanted
    have hcell : cell.2.status = .rejected ∧ cell.1 = exchange.toExecutions ∨
        cell.2.status = .filled ∧ cell.1.ledger.state.positionUnits = wanted decision.action := by
      have hsound : PerpetualLedger.Sound exchange.config.ledger exchange.ledger :=
        hconfig ▸ h.consistent.booked.sound
      have hfilled := houtcome.cases hsound
        (by rw [hremaining, hrequest, hposition]; exact hpos)
      rcases hfilled with hrejected | ⟨hstatus, hmoved⟩
      · exact .inl hrejected
      · refine .inr ⟨hstatus, Int64.toInt_inj.mp ?_⟩
        rw [hmoved, hplaced, hremaining, hrequest, hposition]
        exact hreaches
    rw [hsubmitted, hresult]
    refine ⟨⟨hconsistent, ?_, ?_, ?_⟩, rfl, ?_⟩
    · refine List.forall_mem_append.mpr ⟨h.done, List.forall_mem_singleton.mpr ?_⟩
      exact hcell.symm.imp (·.1) (·.1)
    · rcases hcell with ⟨_, hbooks⟩ | ⟨_, hmoved⟩
      · show OnSide cell.1.ledger.state.positionUnits
        rw [hbooks]
        exact h.position
      · show OnSide cell.1.ledger.state.positionUnits
        rw [hmoved]
        exact onSide_wanted decision.action
    · refine List.forall_mem_append.mpr ⟨h.named, List.forall_mem_singleton.mpr ?_⟩
      refine ⟨callback.event.sequence, callback.event, ?_, hmarket, UInt64.le_refl _⟩
      rw [houtcome.order_eq.1, hplaced, hrequest]
      rfl
    · rcases hcell with ⟨_, hbooks⟩ | ⟨_, hmoved⟩
      · exact .inl (by rw [hbooks])
      · exact .inr hmoved

end Exchanges

/-- The loop between two steps: a quiet exchange, and a name left for the callback under way. -/
structure Held (state : State) : Prop where
  quiet : Quiet state.exchange
  fresh : ∀ callback ∈ state.callback, Fresh state.exchange callback

/-- How one step may move the position, and how its order is answered. -/
def Moves (event : LiveEvent) (position next : Int64) : Prop :=
  match event with
  | .finished _ _ acted sent =>
    (next = position ∨ ∃ decision, acted = some decision ∧ decision.action ≠ .hold ∧
      next = wanted decision.action) ∧ ∀ order ∈ sent, order.2.duplicate = false
  | _ => next = position

section Steps
variable {answers : ModelState → Outcome → Prop} {useLaya : Bool} {events : List LiveEvent}
  {state next : State} {event : LiveEvent}

theorem Held.step (h : Held state) (hmirrored : Mirrored events state)
    (hstep : Step answers useLaya state event next) :
    Held next ∧ Moves event state.exchange.ledger.state.positionUnits
      next.exchange.ledger.state.positionUnits := by
  cases hstep with
  | ignored heardEvent hidle hignored =>
    rw [receive_of_not_accepts _ _ _ hignored]
    exact ⟨⟨h.quiet.heard.1, by simp [hidle]⟩, h.quiet.heard.2⟩
  | received heardEvent hidle haccepts =>
    have hreceived := receive_of_accepts useLaya state heardEvent haccepts
    rw [hreceived.exchange]
    refine ⟨⟨hreceived.exchange ▸ h.quiet.heard.1, fun callback hcallback => ?_⟩, h.quiet.heard.2⟩
    obtain rfl := Option.some.inj (hreceived.callback.symm.trans hcallback)
    rw [hreceived.exchange]
    exact h.quiet.fresh haccepts rfl
  | worked workerEvent worker => exact ⟨⟨h.quiet, h.fresh⟩, rfl⟩
  | finished callback hcallback =>
    obtain ⟨_, hmarket, _, hposition⟩ := hmirrored.callback callback hcallback
    have hfinished := finish_finished useLaya state callback
    rcases hfinished.acts with ⟨_, hsent, he, _⟩ | ⟨decision, _, _, hacted, _, hexecute⟩
    · refine ⟨⟨he ▸ h.quiet, by simp [hfinished.callback_eq]⟩, .inl (by rw [he]), ?_⟩
      simp [hsent]
    · rcases execute_cases callback state.exchange decision with
        hnone | ⟨hpermitted, hne, request, hrequest, hsome⟩
      · obtain ⟨he, hsent⟩ := Prod.mk.inj (hexecute.trans hnone)
        refine ⟨⟨he ▸ h.quiet, by simp [hfinished.callback_eq]⟩, .inl (by rw [he]), ?_⟩
        simp [hsent]
      · obtain ⟨he, hsent⟩ := Prod.mk.inj (hexecute.trans hsome)
        obtain ⟨hquiet, hduplicate, hmoved⟩ := h.quiet.submitted hmarket hposition
          (h.fresh callback hcallback) hne hrequest
        refine ⟨⟨he ▸ hquiet, by simp [hfinished.callback_eq]⟩, ?_, ?_⟩
        · rw [he]
          exact hmoved.imp_right fun hwanted => ⟨decision, hacted, hpermitted.2.1, hwanted⟩
        · rw [hsent]
          rintro order horder
          rw [← Option.some.inj horder]
          exact hduplicate

end Steps

theorem held_initial : Held initial where
  quiet :=
    { consistent := consistent_new (by decide +kernel)
      done := fun _ h => absurd h (by simp [initial, PaperExchange.new])
      position := .inr (.inl rfl)
      named := fun _ h => absurd h (by simp [initial, PaperExchange.new]) }
  fresh := fun _ h => absurd h (by simp [initial])

def positionAfter (events : List LiveEvent) : Int64 :=
  (exchangeAfter events).ledger.state.positionUnits

def LiveEvent.isWork : LiveEvent → Bool
  | .worked _ => true
  | _ => false

theorem positionAfter_append_work (events : List LiveEvent) {mid : List LiveEvent}
    (h : ∀ event ∈ mid, event.isWork = true) :
    positionAfter (events ++ mid) = positionAfter events := by
  induction mid using List.reverseRecOn with
  | nil => rw [List.append_nil]
  | append_singleton mid last ih =>
    obtain ⟨hmid, hlast⟩ := List.forall_mem_append.mp h
    rw [← ih hmid, positionAfter, ← List.append_assoc, exchangeAfter_concat]
    cases last with
    | worked step => rfl
    | ignored event =>
      exact absurd (hlast _ (List.mem_singleton_self _)) (by simp [LiveEvent.isWork])
    | received event =>
      exact absurd (hlast _ (List.mem_singleton_self _)) (by simp [LiveEvent.isWork])
    | finished event taken acted sent =>
      exact absurd (hlast _ (List.mem_singleton_self _)) (by simp [LiveEvent.isWork])

structure Exposed (events : List LiveEvent) (state : State) : Prop where
  settled : ∀ order ∈ state.exchange.orders, order.status = .filled ∨ order.status = .rejected
  answered : ∀ event taken acted order,
    LiveEvent.finished event taken acted (some order) ∈ events → order.2.duplicate = false
  position : state.exchange.ledger.state.positionUnits ∈ [-1, 0, 1]
  current : state.exchange.ledger.state.positionUnits = positionAfter events
  ignored : ∀ before event after, events = before ++ .ignored event :: after →
    positionAfter (before ++ [.ignored event]) = positionAfter before
  callbacks : ∀ before event mid taken acted sent after,
    events = before ++ .received event :: mid ++ .finished event taken acted sent :: after →
    (∀ step ∈ mid, step.isWork = true) →
    positionAfter (before ++ .received event :: mid ++ [.finished event taken acted sent]) =
        positionAfter before ∨
      ∃ decision, acted = some decision ∧ decision.action ≠ .hold ∧
        positionAfter (before ++ .received event :: mid ++ [.finished event taken acted sent]) =
          wanted decision.action

theorem trace_exposed (answers : ModelState → Outcome → Prop) (useLaya : Bool)
    (events : List LiveEvent) (state : State)
    (htrace : Trace (Step answers useLaya) initial events state) : Exposed events state := by
  have hinvariant : ∀ {before : List LiveEvent} {reached : State},
      Trace (Step answers useLaya) initial before reached →
        Mirrored before reached ∧ Held reached :=
    fun hreached => hreached.invariant (I := fun events state => Mirrored events state ∧ Held state)
      ⟨mirrored_initial, held_initial⟩ fun h hstep => ⟨h.1.step hstep, (h.2.step h.1 hstep).1⟩
  -- what a step of the trace does to the position, said of the history alone
  have hmoves : ∀ before event after, events = before ++ event :: after →
      Moves event (positionAfter before) (positionAfter (before ++ [event])) := by
    rintro before event after rfl
    obtain ⟨reached, next, hbefore, hstep⟩ := htrace.step_of_split
    obtain ⟨hmirrored, hheld⟩ := hinvariant hbefore
    have hmoved := (hheld.step hmirrored hstep).2
    rwa [hmirrored.exchange, (hmirrored.step hstep).exchange] at hmoved
  obtain ⟨hmirrored, hheld⟩ := hinvariant htrace
  exact {
    settled := hheld.quiet.done
    answered := by
      intro event taken acted order hmem
      obtain ⟨before, after, hsplit⟩ := List.append_of_mem hmem
      exact (hmoves before _ after hsplit).2 order rfl
    position := by
      rcases hheld.quiet.position with he | he | he
      · rw [he]
        decide
      · rw [he]
        decide
      · rw [he]
        decide
    current := by rw [hmirrored.exchange, positionAfter]
    ignored := fun before event after hsplit => hmoves before _ after hsplit
    callbacks := by
      intro before event mid taken acted sent after hsplit hwork
      have hreceived : positionAfter (before ++ [.received event]) = positionAfter before :=
        hmoves before (.received event) (mid ++ .finished event taken acted sent :: after)
          (by simpa using hsplit)
      have hquiet : positionAfter (before ++ .received event :: mid) = positionAfter before := by
        have hidle := positionAfter_append_work (before ++ [.received event]) hwork
        rw [List.append_assoc, List.singleton_append] at hidle
        exact hidle.trans hreceived
      rw [← hquiet]
      exact (hmoves _ (.finished event taken acted sent) after hsplit).1 }

/-- The baseline buys at the end of the warm-up, and turns the position 500 events later. -/
theorem trace_exposed_reversal :
    let event : MarketEvent := { sequence := 500, exchangeTimeNs := 1, receiveTimeNs := 1
                                 bestBidUnits := 10000000, bestAskUnits := 10000100 }
    let feed := (List.range 100).map fun k => { event with sequence := 401 + k.toUInt64 }
    let run := (feed ++ [{ event with sequence := 1000, askQuantityUnits := 1 }]).foldl
      (uninterrupted false) ([], initial)
    run.2.exchange.orders.length = 2 ∧ run.2.exchange.ledger.state.positionUnits = -1 ∧
      Exposed run.1 run.2 := by
  intro event feed run
  exact ⟨by decide +kernel, by decide +kernel,
    trace_exposed (fun _ _ => False) false _ _ (trace_uninterrupted _ _ _)⟩

end Astra.Live
