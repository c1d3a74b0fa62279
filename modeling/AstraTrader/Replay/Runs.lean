import AstraTrader.Exchange.Acknowledgement
import AstraTrader.Exchange.MarketOrders
import AstraTrader.Replay.Model

/-! Runs of the replay: what one turn of the loop does to the exchange and to the decision kept
for the next turn, and that a fill comes from a later row than the decision behind it. -/

namespace Astra.Replay
open Process FixedWidth PaperExchange

/-- `pending` is the decision taken at `event`. -/
structure TakenAt (event : MarketEvent) (pending : PendingDecision) : Prop where
  stateSequence : pending.decision.stateSequence = event.sequence
  decisionTimeNs : pending.decisionTimeNs = event.receiveTimeNs

theorem clientOrderId_injective {a b : UInt64} (h : clientOrderId a = clientOrderId b) : a = b :=
  UInt64.toNat_inj.mp (toString_injective ((String.append_right_inj _).mp h))

section Turn
variable (options : Options) (state : State) (event : MarketEvent)

theorem decide_stateSequence (model : Model) (count : ℕ) (modelState : ModelState) :
    (model.decide count modelState).stateSequence = modelState.sequence := by
  cases model with
  | baseline =>
    show (baselineDecision modelState).stateSequence = _
    unfold baselineDecision
    dsimp only
    split_ifs <;> rfl
  | hold => rfl
  | laya reply =>
    show (layaDecision modelState (reply count modelState)).stateSequence = _
    cases reply count modelState <;> rfl
  | tape tape =>
    show (tape.decide modelState.sequence).stateSequence = _
    unfold DecisionTape.decide
    cases hfind : tape.find modelState.sequence with
    | none => rfl
    | some decision =>
      obtain ⟨first, last, hsplit, _⟩ := List.lookup_eq_some_iff.mp hfind
      exact tape.keyed (modelState.sequence, decision) (by simp [hsplit])

theorem gate_stateSequence (decision : ModelDecision) :
    (gate options decision).stateSequence = decision.stateSequence := by
  unfold gate
  split_ifs <;> rfl

theorem observe_exchange : (observe options state event).exchange = state.exchange := by
  unfold observe
  dsimp only
  split_ifs <;> rfl

theorem observe_events :
    (observe options state event).metrics.events = state.metrics.events + 1 := by
  unfold observe
  dsimp only
  split_ifs <;> rfl

theorem observe_features : (observe options state event).features =
    state.features.push (PaperExchange.midpoint event) := by
  unfold observe
  dsimp only
  split_ifs <;> rfl

theorem observe_pending {pending : PendingDecision}
    (h : (observe options state event).pendingDecision = some pending) :
    state.pendingDecision = some pending ∨ TakenAt event pending := by
  unfold observe at h
  dsimp only at h
  split_ifs at h
  · rw [← Option.some.inj h]
    exact .inr ⟨by rw [gate_stateSequence, decide_stateSequence]; rfl, rfl⟩
  · exact .inl h

theorem hear_of_accepts (h : state.exchange.accepts event) :
    hear options state event =
      observe options { state with exchange := state.exchange.call (.onMarketEvent event) }
        event := by
  unfold hear
  dsimp only
  rw [if_pos (onMarketEvent_accepted_iff.mpr h)]
  rfl

theorem hear_of_not_accepts (h : ¬ state.exchange.accepts event) :
    hear options state event =
      { state with
        exchange := state.exchange.call (.onMarketEvent event)
        metrics := { state.metrics with ignoredEvents := state.metrics.ignoredEvents + 1 } } := by
  unfold hear
  dsimp only
  rw [if_neg (onMarketEvent_accepted_iff.not.mpr h)]
  rfl

theorem hear_exchange :
    (hear options state event).exchange = state.exchange.call (.onMarketEvent event) := by
  by_cases h : state.exchange.accepts event
  · rw [hear_of_accepts _ _ _ h, observe_exchange]
  · rw [hear_of_not_accepts _ _ _ h]

theorem hear_events :
    (hear options state event).metrics.events =
      if state.exchange.accepts event then state.metrics.events + 1 else state.metrics.events := by
  split_ifs with h
  · rw [hear_of_accepts _ _ _ h, observe_events]
  · rw [hear_of_not_accepts _ _ _ h]

theorem hear_pending (hnone : state.pendingDecision = none) {pending : PendingDecision}
    (h : (hear options state event).pendingDecision = some pending) :
    state.exchange.accepts event ∧ TakenAt event pending := by
  by_cases haccepts : state.exchange.accepts event
  · rw [hear_of_accepts _ _ _ haccepts] at h
    rcases observe_pending _ _ _ h with hold | htaken
    · exact absurd (hnone.symm.trans hold) (by simp)
    · exact ⟨haccepts, htaken⟩
  · rw [hear_of_not_accepts _ _ _ haccepts] at h
    exact absurd (hnone.symm.trans h) (by simp)

theorem settlePending_pending : (settlePending state).pendingDecision = none := by
  unfold settlePending
  cases h : state.pendingDecision with
  | none => exact h
  | some pending =>
    dsimp only
    split_ifs <;> rfl

/-- What is missing to the position that the decision asks for. -/
def distance (state : State) (pending : PendingDecision) : Int64 :=
  target pending.decision.action state.exchange.ledger.state.positionUnits -
    state.exchange.ledger.state.positionUnits

/-- The loop sends an order for the decision it kept. -/
def Sends (state : State) (pending : PendingDecision) : Prop :=
  state.pendingDecision = some pending ∧ pending.decision.succeeded = true ∧
    distance state pending ≠ 0

instance (state : State) (pending : PendingDecision) : Decidable (Sends state pending) :=
  inferInstanceAs (Decidable (_ ∧ _))

def sentOrder (state : State) (pending : PendingDecision) : OrderRequest :=
  orderFor pending (distance state pending)

theorem settlePending_of_sends {pending : PendingDecision} (h : Sends state pending) :
    (settlePending state).exchange =
        state.exchange.call (.submit (sentOrder state pending) pending.decisionTimeNs) ∧
      (settlePending state).metrics.events = state.metrics.events ∧
      (settlePending state).metrics.rejectedOrders =
        if (state.exchange.submit (sentOrder state pending) pending.decisionTimeNs).2.status =
          .rejected then state.metrics.rejectedOrders + 1 else state.metrics.rejectedOrders := by
  have hsend := h.2
  unfold sentOrder
  unfold distance at hsend ⊢
  unfold settlePending
  rw [h.1]
  dsimp only
  rw [if_pos hsend]
  refine ⟨rfl, ?_, ?_⟩ <;> split_ifs <;> rfl

theorem settlePending_of_idle (h : ∀ pending, ¬ Sends state pending) :
    (settlePending state).exchange = state.exchange ∧
      (settlePending state).metrics = state.metrics := by
  unfold settlePending
  cases hpending : state.pendingDecision with
  | none => exact ⟨rfl, rfl⟩
  | some pending =>
    have hsend : ¬ (pending.decision.succeeded = true ∧ distance state pending ≠ 0) :=
      fun hsend => h pending ⟨hpending, hsend⟩
    unfold distance at hsend
    dsimp only
    rw [if_neg hsend]
    exact ⟨rfl, rfl⟩

theorem sends_or_idle : (∃ pending, Sends state pending) ∨ ∀ pending, ¬ Sends state pending := by
  by_cases h : ∃ pending, Sends state pending
  · exact .inl h
  · exact .inr (not_exists.mp h)

theorem settlePending_events : (settlePending state).metrics.events = state.metrics.events := by
  rcases sends_or_idle state with ⟨pending, hsends⟩ | hidle
  · exact (settlePending_of_sends state hsends).2.1
  · rw [(settlePending_of_idle state hidle).2]

theorem settlePending_features : (settlePending state).features = state.features := by
  unfold settlePending
  cases state.pendingDecision with
  | none => rfl
  | some pending =>
    dsimp only
    split_ifs <;> rfl

theorem settlePending_market :
    (settlePending state).exchange.market = state.exchange.market := by
  rcases sends_or_idle state with ⟨pending, hsends⟩ | hidle
  · rw [(settlePending_of_sends state hsends).1]
    rcases call_market state.exchange (.submit (sentOrder state pending) pending.decisionTimeNs)
      with hsame | ⟨event, hcall, _⟩
    · exact hsame
    · exact ExchangeCall.noConfusion hcall
  · rw [(settlePending_of_idle state hidle).1]

theorem step_of_inWindow (h : inWindow options event) :
    step options state event = hear options (settlePending state) event := if_pos h

theorem step_of_not_inWindow (h : ¬ inWindow options event) :
    step options state event = state := if_neg h

end Turn

section Replays
variable (options : Options)

theorem replay_concat (rows : List MarketEvent) (row : MarketEvent) :
    replay options (rows ++ [row]) = step options (replay options rows) row :=
  List.foldl_concat ..

theorem exchangeConfig_ledger :
    (PerpetualLedger.new (exchangeConfig options).ledger).configError = .ok := by
  show (PerpetualLedger.new
    { initialCashUnits := 10000000, accountScale := 2, priceScale := 2,
      quantityScale := 3 }).configError = .ok
  decide

theorem exchangeConfig_valid : validConfig (exchangeConfig options) = true := by
  have hfee := options.takerFeePpm_le
  have hslip := options.marketSlippagePpm_le
  simp only [validConfig, exchangeConfig_ledger, decide_true, Bool.true_and, Bool.and_eq_true,
    decide_eq_true_eq]
  have hone : (0 : Int64) < 1 ∧ (0 : Int64) ≤ 100 ∧ (0 : UInt32) ≤ partsPerMillion ∧
      (0 : Int64) ≤ 1 ∧ (0 : Int64) ≤ 0 := by decide
  exact ⟨⟨⟨⟨⟨⟨hone.1, hone.2.1⟩, hone.2.2.1⟩, hfee⟩, hslip⟩, hone.2.2.2.1⟩, hone.2.2.2.2⟩

theorem latency_ne_zero {exchange : PaperExchange}
    (h : Consistent (exchangeConfig options) exchange) :
    exchange.config.acknowledgementLatencyNs ≠ 0 := by
  rw [h.config_eq]
  show (1 : Int64) ≠ 0
  decide

theorem replay_calls (rows later : List MarketEvent) :
    ∃ calls : List ExchangeCall, (replay options (rows ++ later)).exchange =
      calls.foldl call (replay options rows).exchange := by
  induction later using List.reverseRecOn with
  | nil => exact ⟨[], by rw [List.append_nil]; rfl⟩
  | append_singleton later row ih =>
    obtain ⟨calls, hcalls⟩ := ih
    rw [← List.append_assoc, replay_concat]
    by_cases hwindow : inWindow options row
    · rw [step_of_inWindow _ _ _ hwindow, hear_exchange]
      rcases sends_or_idle (replay options (rows ++ later)) with ⟨pending, hsends⟩ | hidle
      · refine ⟨calls ++ [.submit (sentOrder (replay options (rows ++ later)) pending)
          pending.decisionTimeNs] ++ [.onMarketEvent row], ?_⟩
        rw [(settlePending_of_sends _ hsends).1, hcalls, List.foldl_concat, List.foldl_concat]
      · exact ⟨calls ++ [.onMarketEvent row],
          by rw [(settlePending_of_idle _ hidle).1, hcalls, List.foldl_concat]⟩
    · rw [step_of_not_inWindow _ _ _ hwindow]
      exact ⟨calls, hcalls⟩

/-- A decision was taken at `row`, one of `rows`. -/
def Taken (rows : List MarketEvent) (row : MarketEvent) : Prop :=
  ∃ first later pending, rows = first ++ row :: later ∧
    (replay options (first ++ [row])).pendingDecision = some pending ∧ TakenAt row pending

/-- The market has come at least as far as the row. -/
def Passed (exchange : PaperExchange) (row : MarketEvent) : Prop :=
  ∃ market, exchange.market = some market ∧ row.sequence ≤ market.sequence

/-- What the loop keeps, and the orders it has sent, name rows that took a decision. -/
structure Traced (rows : List MarketEvent) (state : State) : Prop where
  consistent : Consistent (exchangeConfig options) state.exchange
  pending : ∀ p ∈ state.pendingDecision, ∃ row, Taken options rows row ∧ TakenAt row p ∧
    Passed state.exchange row
  orders : ∀ order ∈ state.exchange.orders, ∃ row, Taken options rows row ∧
    order.request.clientOrderId = clientOrderId row.sequence ∧ Passed state.exchange row
  fresh : ∀ p ∈ state.pendingDecision, ∀ order ∈ state.exchange.orders,
    order.request.clientOrderId ≠ clientOrderId p.decision.stateSequence

variable {options}

theorem Taken.append {rows : List MarketEvent} {row : MarketEvent} (h : Taken options rows row)
    (more : List MarketEvent) : Taken options (rows ++ more) row := by
  obtain ⟨first, later, pending, rfl, hrest⟩ := h
  exact ⟨first, later ++ more, pending, by simp, hrest⟩

theorem Passed.call {exchange : PaperExchange} {row : MarketEvent} (h : Passed exchange row)
    (c : ExchangeCall) : Passed (exchange.call c) row := market_sequence_ge [c] h

theorem Traced.configValid {rows : List MarketEvent} {state : State}
    (h : Traced options rows state) : state.exchange.configValid = true :=
  h.consistent.configValid_eq.trans (exchangeConfig_valid options)

theorem Traced.append {rows : List MarketEvent} {state : State} (h : Traced options rows state)
    (more : List MarketEvent) : Traced options (rows ++ more) state where
  consistent := h.consistent
  pending p hp := by
    obtain ⟨row, htaken, hrest⟩ := h.pending p hp
    exact ⟨row, htaken.append more, hrest⟩
  orders order horder := by
    obtain ⟨row, htaken, hrest⟩ := h.orders order horder
    exact ⟨row, htaken.append more, hrest⟩
  fresh := h.fresh

theorem Traced.settlePending {rows : List MarketEvent} {state : State}
    (h : Traced options rows state) : Traced options rows (settlePending state) := by
  have hnone := settlePending_pending state
  rcases sends_or_idle state with ⟨pending, hsends⟩ | hidle
  · have he := (settlePending_of_sends state hsends).1
    refine ⟨he ▸ h.consistent.call _, by simp [hnone], ?_, by simp [hnone]⟩
    rw [he]
    refine call_named (P := fun name => ∃ row, Taken options rows row ∧
      name = clientOrderId row.sequence ∧ Passed (state.exchange.call _) row)
      (fun order horder => ?_) fun request decisionTimeNs hcall => ?_
    · obtain ⟨row, htaken, hname, hpassed⟩ := h.orders order horder
      exact ⟨row, htaken, hname, hpassed.call _⟩
    · obtain ⟨row, htaken, hat, hpassed⟩ := h.pending pending hsends.1
      obtain ⟨rfl, _⟩ := ExchangeCall.submit.inj hcall
      exact ⟨row, htaken, congrArg clientOrderId hat.stateSequence, hpassed.call _⟩
  · have he := (settlePending_of_idle state hidle).1
    exact ⟨he ▸ h.consistent, by simp [hnone], he ▸ h.orders, by simp [hnone]⟩

theorem Traced.hear {rows : List MarketEvent} {row : MarketEvent}
    (h : Traced options rows (Replay.settlePending (replay options rows)))
    (hwindow : inWindow options row) :
    Traced options (rows ++ [row]) (replay options (rows ++ [row])) := by
  have hreplay : replay options (rows ++ [row]) =
      Replay.hear options (Replay.settlePending (replay options rows)) row := by
    rw [replay_concat, step_of_inWindow _ _ _ hwindow]
  have hexchange := congrArg State.exchange hreplay
  rw [hear_exchange] at hexchange
  -- a decision is taken at the row, or none is kept
  have hpending : ∀ p ∈ (replay options (rows ++ [row])).pendingDecision,
      (Replay.settlePending (replay options rows)).exchange.accepts row ∧ TakenAt row p := by
    intro p hp
    rw [hreplay] at hp
    exact hear_pending _ _ _ (settlePending_pending _) hp
  refine ⟨?_, fun p hp => ?_, ?_, fun p hp => ?_⟩
  · rw [hexchange]
    exact h.consistent.call _
  · obtain ⟨haccepts, hat⟩ := hpending p hp
    refine ⟨row, ⟨rows, [], p, rfl, hp, hat⟩, hat, row, ?_, UInt64.le_refl _⟩
    rw [hexchange]
    exact call_market_of_accepts haccepts
  · rw [hexchange]
    refine call_named (P := fun name => ∃ other, Taken options (rows ++ [row]) other ∧
      name = clientOrderId other.sequence ∧ Passed (PaperExchange.call _ _) other)
      (fun order horder => ?_) fun request decisionTimeNs hcall => ExchangeCall.noConfusion hcall
    obtain ⟨other, htaken, hname, hpassed⟩ := h.orders order horder
    exact ⟨other, htaken.append [row], hname, hpassed.call _⟩
  · obtain ⟨haccepts, hat⟩ := hpending p hp
    rw [hexchange]
    refine call_named (P := fun name => name ≠ clientOrderId p.decision.stateSequence)
      (fun order horder => ?_) fun request decisionTimeNs hcall => ExchangeCall.noConfusion hcall
    obtain ⟨other, _, hname, market, hmarket, hle⟩ := h.orders order horder
    rw [hname, hat.stateSequence]
    intro hsame
    have hlt := UInt64.lt_of_le_of_lt hle (haccepts.2.2.1 market hmarket)
    exact UInt64.ne_of_lt hlt (clientOrderId_injective hsame)

theorem traced_replay (options : Options) (rows : List MarketEvent) :
    Traced options rows (replay options rows) := by
  induction rows using List.reverseRecOn with
  | nil =>
    refine ⟨consistent_new (exchangeConfig_valid options), fun p hp => ?_, fun order horder => ?_,
      fun p hp => ?_⟩
    · exact absurd hp (by simp [replay, initial])
    · exact absurd horder (by simp [replay, initial, PaperExchange.new])
    · exact absurd hp (by simp [replay, initial])
  | append_singleton rows row ih =>
    by_cases hwindow : inWindow options row
    · exact ih.settlePending.hear hwindow
    · rw [replay_concat, step_of_not_inWindow _ _ _ hwindow]
      exact ih.append [row]

/-- A row made the fill, for a decision taken at an earlier row. -/
def CausedEarlier (options : Options) (rows : List MarketEvent) (fill : PaperFill) : Prop :=
  ∃ mid event tail row, rows = mid ++ event :: tail ∧
    fill ∉ (replay options mid).exchange.fills ∧
    fill ∈ (replay options (mid ++ [event])).exchange.fills ∧ Taken options mid row ∧
    fill.clientOrderId = clientOrderId row.sequence ∧ fill.marketSequence = event.sequence ∧
    row.sequence < fill.marketSequence

theorem replay_causedEarlier (options : Options) (rows : List MarketEvent) {fill : PaperFill}
    (hfill : fill ∈ (replay options rows).exchange.fills) : CausedEarlier options rows fill := by
  induction rows using List.reverseRecOn with
  | nil => exact absurd hfill (by simp [replay, initial, PaperExchange.new])
  | append_singleton mid event ih =>
    by_cases hearlier : fill ∈ (replay options mid).exchange.fills
    · obtain ⟨first, other, tail, row, rfl, hrest⟩ := ih hearlier
      exact ⟨first, other, tail ++ [event], row, by simp, hrest⟩
    · have hnew := hfill
      have htraced := traced_replay options mid
      by_cases hwindow : inWindow options event
      · rw [replay_concat, step_of_inWindow _ _ _ hwindow, hear_exchange] at hfill
        have hstart := htraced.settlePending
        rcases call_fills (latency_ne_zero options hstart.consistent) _ hfill with
          hsent | ⟨other, hcall, haccepts, hseq, order, horder, _, hname, _⟩
        · -- without an event nothing was filled
          rcases sends_or_idle (replay options mid) with ⟨pending, hsends⟩ | hidle
          · rw [(settlePending_of_sends _ hsends).1] at hsent
            rcases call_fills (latency_ne_zero options htraced.consistent) _ hsent with
              hold | ⟨_, hcall, _⟩
            · exact absurd hold hearlier
            · exact ExchangeCall.noConfusion hcall
          · rw [(settlePending_of_idle _ hidle).1] at hsent
            exact absurd hsent hearlier
        · obtain rfl := ExchangeCall.onMarketEvent.inj hcall
          obtain ⟨row, htaken, hrow, market, hmarket, hle⟩ := hstart.orders order horder
          refine ⟨mid, event, [], row, rfl, hearlier, hnew, htaken, hname.symm.trans hrow, hseq, ?_⟩
          rw [hseq]
          exact UInt64.lt_of_le_of_lt hle (haccepts.2.2.1 market hmarket)
      · rw [replay_concat, step_of_not_inWindow _ _ _ hwindow] at hfill
        exact absurd hfill hearlier

end Replays

/-- With latency a fill comes from an event after the decision, in any run of the exchange and so
in a replay. -/
theorem fill_followsDecision :
    (∀ (config : PaperExchangeConfig) (before : List ExchangeCall) (request : OrderRequest)
      (decisionTimeNs : Int64) (after : List ExchangeCall) (fill : PaperFill),
      0 < config.acknowledgementLatencyNs →
      InRange64 (decisionTimeNs.toInt + config.acknowledgementLatencyNs.toInt) →
      (run config before).Stores request decisionTimeNs →
      fill ∈ (run config (before ++ .submit request decisionTimeNs :: after)).fills →
      fill.orderId = ((run config before).submit request decisionTimeNs).2.orderId →
      FilledLater config before request decisionTimeNs after fill) ∧
    ∀ (options : Options) (rows : List MarketEvent),
      ∀ fill ∈ (replay options rows).exchange.fills, CausedEarlier options rows fill := by
  constructor
  · intro config before request decisionTimeNs after fill hlatency hrange hstores hfill hid
    obtain ⟨market, hadmitted⟩ := stores_iff.mp hstores
    rw [submitted_orderId hlatency hadmitted] at hid
    exact fill_acknowledged hlatency hrange hadmitted after hfill hid
  · intro options rows fill hfill
    exact replay_causedEarlier options rows hfill

/-- An order overtaken by an event that comes too early, and two rows of a replay. -/
theorem fill_followsDecision_tooEarly :
    let fill : PaperFill := { fillId := 1, orderId := 1, clientOrderId := "a", marketSequence := 3
                              exchangeTimeNs := 2, quantityUnits := 5, priceUnits := 102 }
    let event : MarketEvent := { sequence := 1, exchangeTimeNs := 1, receiveTimeNs := 1
                                 bestBidUnits := 99, bestAskUnits := 101 }
    let row : MarketEvent := { sequence := 1, exchangeTimeNs := 1000, receiveTimeNs := 1001000
                               bestBidUnits := 10000, bestAskUnits := 10001, bidQuantityUnits := 9 }
    let replayed : PaperFill :=
      { fillId := 1, orderId := 1, clientOrderId := "replay-1", marketSequence := 2
        exchangeTimeNs := 2000, quantityUnits := 100, priceUnits := 10003, feeUnits := 1 }
    FilledLater { ledger := { initialCashUnits := 10000 }, acknowledgementLatencyNs := 5 }
        [.onMarketEvent event] { clientOrderId := "a", quantityUnits := 5 } 1
        [.onMarketEvent { event with sequence := 2, receiveTimeNs := 5 },
         .onMarketEvent
           { event with sequence := 3, exchangeTimeNs := 2, receiveTimeNs := 6,
                        bestAskUnits := 102 }] fill ∧
      CausedEarlier { decisionEvery := 1 }
        [row, { row with sequence := 2, exchangeTimeNs := 2000, receiveTimeNs := 1002000 }]
        replayed := by
  intro fill event row replayed
  constructor
  · exact fill_followsDecision.1 _ _ _ _ _ fill (by decide) (by decide) (by decide +kernel)
      (by decide +kernel) (by decide +kernel)
  · exact fill_followsDecision.2 _ _ replayed (by decide +kernel)

end Astra.Replay
