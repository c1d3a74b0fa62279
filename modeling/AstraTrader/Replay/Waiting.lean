import AstraTrader.Exchange.MarketOrders
import AstraTrader.Replay.Runs

/-! The order that the replay sends to reach a target, and what the exchange makes of it: it waits
alone until an event finds it acknowledged, and that event takes the position to the target. -/

namespace Astra.Replay
open Process FixedWidth PaperExchange

/-- The positions that the loop means to hold. -/
def OnTarget (position : Int64) : Prop :=
  position = -targetUnits ∨ position = 0 ∨ position = targetUnits

/-- The position is the one that the action asks for. -/
def AtTarget (action : ModelAction) (position : Int64) : Prop := target action position = position

theorem distance_eq_zero {state : State} {pending : PendingDecision} :
    distance state pending = 0 ↔
      AtTarget pending.decision.action state.exchange.ledger.state.positionUnits := by
  unfold distance AtTarget
  rw [Int64.sub_eq_iff_eq_add, Int64.zero_add]

section Targets
variable {action : ModelAction} {position : Int64}

theorem target_target (action : ModelAction) (position : Int64) :
    target action (target action position) = target action position := by
  cases action <;> rfl

theorem OnTarget.target (h : OnTarget position) (action : ModelAction) :
    OnTarget (target action position) := by
  cases action with
  | longPosition => exact .inr (.inr rfl)
  | shortPosition => exact .inl rfl
  | hold => exact h

theorem OnTarget.abs_lt (h : OnTarget position) : |position.toInt| < 2 ^ 62 := by
  rcases h with rfl | rfl | rfl <;> decide

end Targets

/-- One market order waits behind settled ones; filled, it would bring the target. -/
structure Waiting (exchange : PaperExchange) (order : PaperOrder) (action : ModelAction) :
    Prop where
  last : ∃ pre, exchange.orders = pre ++ [order] ∧ Settled pre
  type : order.request.type = .market
  status : order.status = .pending
  remaining : 0 < order.remainingQuantityUnits
  reaches : exchange.ledger.state.positionUnits.toInt +
    order.request.side.sign * order.remainingQuantityUnits.toInt =
      (target action exchange.ledger.state.positionUnits).toInt

section Exchanges
variable {options : Options} {exchange : PaperExchange} {event : MarketEvent}
  {order : PaperOrder} {action : ModelAction}

theorem Waiting.mem (h : Waiting exchange order action) : order ∈ exchange.orders := by
  obtain ⟨pre, horders, _⟩ := h.last
  simp [horders]

theorem Waiting.isLive (h : Waiting exchange order action) : order.isLive = true :=
  isLive_of_waiting (.inl h.status)

theorem Waiting.eq_of_isLive (h : Waiting exchange order action) {other : PaperOrder}
    (hmem : other ∈ exchange.orders) (hlive : other.isLive = true) : other = order := by
  obtain ⟨pre, horders, hsettled⟩ := h.last
  rw [horders] at hmem
  rcases List.mem_append.mp hmem with hpre | hlast
  · exact absurd hlive (by simp [hsettled other hpre])
  · exact List.mem_singleton.mp hlast

theorem Waiting.ignored (h : Waiting exchange order action) (hignored : ¬ exchange.accepts event) :
    Waiting (exchange.call (.onMarketEvent event)) order action := by
  rw [call_of_ignored hignored]
  exact ⟨h.last, h.type, h.status, h.remaining, h.reaches⟩

/-- The event that finds the order acknowledged settles it, and only marks besides. -/
theorem Waiting.outcome (h : Waiting exchange order action)
    (hconsistent : Consistent (exchangeConfig options) exchange)
    (haccepts : exchange.accepts event) (hdue : order.activeTimeNs ≤ event.receiveTimeNs) :
    ∃ pre cell, exchange.orders = pre ++ [order] ∧
      MarketOutcome exchange.config event exchange.toExecutions order cell ∧
      (exchange.call (.onMarketEvent event)).orders = pre ++ [cell.2] ∧ Settled (pre ++ [cell.2]) ∧
      (exchange.call (.onMarketEvent event)).fills = cell.1.fills ∧
      (exchange.call (.onMarketEvent event)).ledger.state.positionUnits =
        cell.1.ledger.state.positionUnits := by
  obtain ⟨pre, horders, hsettled⟩ := h.last
  have hsound : PerpetualLedger.Sound exchange.config.ledger exchange.ledger := by
    rw [hconsistent.config_eq]
    exact hconsistent.booked.sound
  have houtcome := @activate_marketOutcome exchange.config event exchange.toExecutions order h.type
    h.status hdue h.remaining
  have hcell : Executions.activateDue exchange.config event exchange.toExecutions order =
      Executions.activate exchange.config event exchange.toExecutions order :=
    if_pos ⟨.inl h.status, hdue⟩
  rw [call, onMarketEvent_of_waiting horders hsettled h.type h.status h.remaining haccepts hcell]
  refine ⟨pre, _, horders, houtcome, rfl,
    List.forall_mem_append.mpr ⟨hsettled, List.forall_mem_singleton.mpr ?_⟩, rfl,
    ((houtcome.sound hsound).markToMarket_books (midpoint event)).1⟩
  rcases houtcome.order_eq.2 with hstatus | hstatus <;>
    simp [PaperOrder.isLive, isTerminal, hstatus]

theorem Waiting.heard (h : Waiting exchange order action)
    (hconsistent : Consistent (exchangeConfig options) exchange)
    (haccepts : exchange.accepts event) (hdue : order.activeTimeNs ≤ event.receiveTimeNs) :
    Settled (exchange.call (.onMarketEvent event)).orders ∧
      ((exchange.call (.onMarketEvent event)).ledger.state.positionUnits =
          target action exchange.ledger.state.positionUnits ∨
        (exchange.call (.onMarketEvent event)).ledger.state.positionUnits =
            exchange.ledger.state.positionUnits ∧
          ∃ rejected ∈ (exchange.call (.onMarketEvent event)).orders,
            rejected.request = order.request ∧ rejected.status = .rejected) := by
  obtain ⟨pre, cell, _, houtcome, horders, hsettled, _, hposition⟩ :=
    h.outcome hconsistent haccepts hdue
  have hsound : PerpetualLedger.Sound exchange.config.ledger exchange.ledger := by
    rw [hconsistent.config_eq]
    exact hconsistent.booked.sound
  rw [horders, hposition]
  refine ⟨hsettled, ?_⟩
  rcases houtcome.cases hsound h.remaining with ⟨hrejected, hbooks⟩ | ⟨_, hmoved⟩
  · refine .inr ⟨by rw [hbooks], cell.2, ?_, houtcome.order_eq.1, hrejected⟩
    exact List.mem_append_right _ (List.mem_singleton_self _)
  · rw [h.reaches] at hmoved
    exact .inl (Int64.toInt_inj.mp hmoved)

end Exchanges

end Astra.Replay
