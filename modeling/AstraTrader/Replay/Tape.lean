import AstraTrader.Exchange.NotionalGate
import AstraTrader.Exchange.Redelivery
import AstraTrader.Replay.Target

/-! Replays of a tape that decides every row, with a threshold of zero: each row executes the
decision of the row before it, and what that execution comes to. -/

namespace Astra.Replay
open Process FixedWidth PaperExchange

/-- A valid row with a decision for it. -/
structure DecidedRow where
  event : MarketEvent
  action : ModelAction
  wellFormed : event.WellFormed

def events (rows : List DecidedRow) : List MarketEvent := rows.map (·.event)

def lastAction (rows : List DecidedRow) : ModelAction := (rows.getLast?.map (·.action)).getD .hold

/-- The tape has the row's decision. -/
def Model.Decides (model : Model) (row : DecidedRow) : Prop :=
  match model with
  | .tape decisions => ∃ decision ∈ decisions.find row.event.sequence,
      decision.succeeded = true ∧ decision.action = row.action
  | _ => False

instance (model : Model) (row : DecidedRow) : Decidable (model.Decides row) := by
  unfold Model.Decides
  cases model <;> infer_instance

theorem Model.Decides.found {model : Model} {row : DecidedRow} (h : model.Decides row) :
    ∃ decisions decision, model = .tape decisions ∧
      decisions.find row.event.sequence = some decision ∧
      decision.succeeded = true ∧ decision.action = row.action := by
  cases model with
  | tape decisions =>
    obtain ⟨decision, hfind, hdecision⟩ := h
    exact ⟨decisions, decision, rfl, hfind, hdecision⟩
  | _ => exact absurd h id

/-- Nothing is refused for its risk and nothing overflows. An order may still be worth too little
to be placed, and a sale may slip to nothing. -/
def Undisturbed (options : Options) (state : State) (event : MarketEvent) : Prop :=
  (∀ pending ∈ state.pendingDecision, Sends state pending →
    (state.exchange.submit (sentOrder state pending) pending.decisionTimeNs).2.reason ∈
      ["", "minimum_notional"]) ∧
  ∀ order ∈ (step options state event).exchange.orders, order.status = .rejected →
    order.request.side = .sell ∧ order.rejectReason = "invalid_slipped_price"

instance (options : Options) (state : State) (event : MarketEvent) :
    Decidable (Undisturbed options state event) := inferInstanceAs (Decidable (_ ∧ _))

/-- The replays that can be compared with a simulation: rows of increasing sequences and times, all
in the window, a decision for each, and no risk rejection or overflow. -/
structure Comparable (options : Options) (rows : List DecidedRow) : Prop where
  threshold : options.probabilityThresholdPpm = 0
  decided : ∀ row ∈ rows, options.model.Decides row
  inWindow : ∀ row ∈ rows, inWindow options row.event
  heardLater : ∀ row ∈ rows,
    row.event.receiveTimeNs = row.event.exchangeTimeNs + options.feedLatencyNs
  sequences : rows.Pairwise (·.event.sequence < ·.event.sequence)
  times : rows.Pairwise (·.event.exchangeTimeNs < ·.event.exchangeTimeNs)
  undisturbed : AllSteps (step options) (Undisturbed options) (initial options) (events rows)

section Rows
variable {options : Options} {rows seen : List DecidedRow} {next : DecidedRow}

theorem events_concat : events (seen ++ [next]) = events seen ++ [next.event] :=
  List.map_append ..

theorem Comparable.left {later : List DecidedRow} (h : Comparable options (seen ++ later)) :
    Comparable options seen where
  threshold := h.threshold
  decided row hrow := h.decided row (List.mem_append_left _ hrow)
  inWindow row hrow := h.inWindow row (List.mem_append_left _ hrow)
  heardLater row hrow := h.heardLater row (List.mem_append_left _ hrow)
  sequences := (List.pairwise_append.mp h.sequences).1
  times := (List.pairwise_append.mp h.times).1
  undisturbed := by
    have hall := h.undisturbed
    rw [events, List.map_append] at hall
    exact (AllSteps.append.mp hall).1

theorem Comparable.undisturbed_next (h : Comparable options (seen ++ [next])) :
    Undisturbed options (replay options (events seen)) next.event := by
  have hall := h.undisturbed
  rw [events_concat] at hall
  exact (AllSteps.append.mp hall).2.1

theorem Comparable.inWindow_next (h : Comparable options (seen ++ [next])) :
    Replay.inWindow options next.event :=
  h.inWindow next (List.mem_append_right seen (List.mem_singleton_self next))

theorem Comparable.receiveTimeNs_lt (h : Comparable options (seen ++ [next])) {row : DecidedRow}
    (hrow : row ∈ seen) : row.event.receiveTimeNs < next.event.receiveTimeNs := by
  have hexact : ∀ row ∈ seen ++ [next], row.event.receiveTimeNs.toInt =
      row.event.exchangeTimeNs.toInt + options.feedLatencyNs.toInt := by
    intro row hrow
    have hle := row.wellFormed.2.2.1
    have hfeed := options.feedLatencyNs_nonneg
    rw [h.heardLater row hrow] at hle ⊢
    exact int64_toInt_add_of_le hfeed hle
  have hmem := List.mem_append_left [next] hrow
  have hnext := List.mem_append_right seen (List.mem_singleton_self next)
  have hlt := (List.pairwise_append.mp h.times).2.2 row hrow next (List.mem_singleton_self next)
  rw [Int64.lt_iff_toInt_lt] at hlt ⊢
  rw [hexact row hmem, hexact next hnext]
  exact Int.add_lt_add_right hlt _

theorem lastAction_concat : lastAction (seen ++ [next]) = next.action := by simp [lastAction]

end Rows

section Amounts
variable {options : Options} {price quantity : Int64}

theorem toInt_calculateNotional {notional : Int64} (hprice : 0 < price.toInt)
    (h : calculateNotional price quantity (exchangeConfig options).ledger = some notional) :
    notional.toInt = price.toInt * |quantity.toInt| / 1000 := by
  have hvalid : (exchangeConfig options).ledger.Valid :=
    new_configError_eq_ok.mp (exchangeConfig_ledger options)
  have hscales : ¬ Unbounded.sourceScale (exchangeConfig options).ledger <
      (exchangeConfig options).ledger.accountScale.toNat := by
    show ¬ (5 < 2)
    decide
  rw [calculateNotional_eq_some hvalid (fun hup => absurd hup hscales), Unbounded.notional,
    Unbounded.rescale, if_neg hscales] at h
  rw [h, mul_comm, Int.tdiv_eq_ediv_of_nonneg (mul_nonneg hprice.le (abs_nonneg _))]
  rfl

theorem toInt_fillFee {fee : Int64} (hprice : 0 < price.toInt)
    (h : Executions.fillFee (exchangeConfig options) price quantity false = some fee) :
    fee.toInt = (price.toInt * |quantity.toInt| / 1000 * options.takerFeePpm.toNat + 999999) /
      1000000 := by
  obtain ⟨notional, hnotional, hfee⟩ := Option.bind_eq_some_iff.mp h
  have hexact := toInt_calculateNotional hprice hnotional
  have hnonneg : 0 ≤ notional.toInt := by
    rw [hexact]
    positivity
  rw [feeFor, narrow_eq_some, toInt_roundedParts hnonneg, hexact] at hfee
  exact hfee

end Amounts

/-- Between two rows nothing is live, and the decision of the last row waits. -/
structure Kept (options : Options) (seen : List DecidedRow) (state : State) : Prop
    extends Tracking options (events seen) state where
  settled : Settled state.exchange.orders
  market : state.exchange.market = seen.getLast?.map (·.event)
  waits : ∀ row ∈ seen.getLast?, ∃ pending, state.pendingDecision = some pending ∧
    pending.decision.succeeded = true ∧ pending.decision.action = row.action ∧
    pending.decisionTimeNs = row.event.receiveTimeNs
  idle : seen = [] → state.pendingDecision = none

section Turns
variable {options : Options} {seen : List DecidedRow} {next : DecidedRow} {state : State}

theorem observe_decides (hthreshold : options.probabilityThresholdPpm = 0)
    (hdecides : options.model.Decides next) (state : State) :
    ∃ pending, (observe options state next.event).pendingDecision = some pending ∧
      pending.decision.succeeded = true ∧ pending.decision.action = next.action ∧
      pending.decisionTimeNs = next.event.receiveTimeNs := by
  obtain ⟨tape, decision, htape, hfind, hsucceeded, haction⟩ := hdecides.found
  have htaken : options.model.tapeDecision next.event.sequence = true := by
    simp [htape, Model.tapeDecision, DecisionTape.contains, hfind]
  have hdecision : ∀ count modelState, modelState.sequence = next.event.sequence →
      gate options (options.model.decide count modelState) = decision := by
    intro count modelState hsequence
    have hpass : ¬ decision.probabilityPpm < options.probabilityThresholdPpm := by
      rw [hthreshold]
      exact UInt32.not_lt_zero
    rw [htape, Model.decide, hsequence, DecisionTape.decide, hfind]
    exact if_neg hpass
  unfold observe
  dsimp only
  rw [if_pos (.inr htaken)]
  refine ⟨_, rfl, ?_, ?_, rfl⟩ <;> rw [hdecision _ _ rfl]
  · exact hsucceeded
  · exact haction

theorem Kept.accepts (h : Kept options seen state) (hrows : Comparable options (seen ++ [next])) :
    state.exchange.accepts next.event := by
  obtain ⟨hsequence, hexchange, hreceive, hbid, hask⟩ := next.wellFormed
  refine ⟨h.configValid, hsequence, ?_, hexchange, hreceive, hbid, hask⟩
  intro market hmarket
  rw [h.market] at hmarket
  obtain ⟨row, hrow, rfl⟩ := Option.map_eq_some_iff.mp hmarket
  exact (List.pairwise_append.mp hrows.sequences).2.2 row (List.mem_of_getLast? hrow) next
    (List.mem_singleton_self next)

theorem Kept.waits_of_pending {pending : PendingDecision} (h : Kept options seen state)
    (hpending : state.pendingDecision = some pending) :
    ∃ row, seen.getLast? = some row ∧ pending.decision.succeeded = true ∧
      pending.decision.action = row.action ∧
      pending.decisionTimeNs = row.event.receiveTimeNs := by
  cases hlast : seen.getLast? with
  | none =>
    have hnone := h.idle (List.getLast?_eq_none_iff.mp hlast)
    exact absurd (hnone.symm.trans hpending) (by simp)
  | some row =>
    obtain ⟨other, hother, hwaits⟩ := h.waits row hlast
    obtain rfl := Option.some.inj (hother.symm.trans hpending)
    exact ⟨row, rfl, hwaits⟩

theorem Kept.timely (h : Kept options seen state) (hrows : Comparable options (seen ++ [next])) :
    Timely options state next.event := by
  intro _ _
  constructor
  · intro pending hpending _ _
    obtain ⟨row, hlast, _, _, htime⟩ := h.waits_of_pending hpending
    rw [htime]
    exact hrows.receiveTimeNs_lt (List.mem_of_getLast? hlast)
  · intro order horder hlive
    rw [h.settled order horder] at hlive
    exact absurd hlive (by decide)

theorem Kept.accepts_next (h : Kept options seen state)
    (hrows : Comparable options (seen ++ [next])) :
    (settlePending state).exchange.accepts next.event := h.accepts_iff.mpr (h.accepts hrows)

theorem Kept.due_next (h : Kept options seen state) (hrows : Comparable options (seen ++ [next])) :
    ∀ order ∈ (settlePending state).exchange.orders, order.isLive = true →
      order.activeTimeNs ≤ next.event.receiveTimeNs :=
  h.due (h.timely hrows) hrows.inWindow_next (h.accepts_next hrows)

theorem Kept.settled_next (h : Kept options seen state)
    (hrows : Comparable options (seen ++ [next])) :
    Settled (step options state next.event).exchange.orders := by
  have hstart := h.settlePending
  rw [step_of_inWindow _ _ _ hrows.inWindow_next, hear_exchange]
  cases hstart.phase with
  | idle hsettled =>
    rw [(settled_heard hstart.consistent hsettled).1]
    exact hsettled
  | waiting order action _ hwaiting =>
    exact (hwaiting.heard hstart.consistent (h.accepts_next hrows)
      (h.due_next hrows order hwaiting.mem hwaiting.isLive)).1

theorem Kept.step (h : Kept options seen (replay options (events seen)))
    (hrows : Comparable options (seen ++ [next])) :
    Kept options (seen ++ [next]) (replay options (events (seen ++ [next]))) := by
  have haccepts := h.accepts_next hrows
  have htracking := Tracking.step h.toTracking (h.timely hrows)
  have hsettled := h.settled_next hrows
  rw [← replay_concat] at hsettled
  rw [← events_concat] at htracking hsettled
  have hreplay : replay options (events (seen ++ [next])) =
      hear options (settlePending (replay options (events seen))) next.event := by
    rw [events_concat, replay_concat, step_of_inWindow _ _ _ hrows.inWindow_next]
  refine ⟨htracking, hsettled, ?_, ?_, fun hnil => absurd hnil (by simp)⟩
  · rw [hreplay, hear_exchange, List.getLast?_concat]
    exact call_market_of_accepts haccepts
  · intro row hrow
    obtain rfl : next = row := by simpa using hrow
    rw [hreplay, hear_of_accepts _ _ _ haccepts]
    exact observe_decides hrows.threshold (hrows.decided _ (by simp)) _

theorem kept_replay (h : Comparable options seen) :
    Kept options seen (replay options (events seen)) := by
  induction seen using List.reverseRecOn with
  | nil =>
    refine ⟨tracking_nil, fun order horder => ?_, rfl, fun row hrow => ?_, fun _ => rfl⟩
    · exact absurd horder (by simp [events, replay, initial, PaperExchange.new])
    · exact absurd hrow (by simp)
  | append_singleton seen next ih => exact (ih h.left).step h

/-- The fill of an order at the touch of the event. -/
structure FilledAt (options : Options) (order : OrderRequest) (event : MarketEvent)
    (fill : PaperFill) : Prop where
  marketSequence : fill.marketSequence = event.sequence
  side : fill.side = order.side
  quantity : fill.quantityUnits = order.quantityUnits
  price : slippedPrice (event.touch order.side) order.side options.marketSlippagePpm =
    some fill.priceUnits
  fee : Executions.fillFee (exchangeConfig options) fill.priceUnits fill.quantityUnits false =
    some fill.feeUnits

/-- What an order is worth at the touch. -/
def worth (order : OrderRequest) (event : MarketEvent) : ℤ :=
  (event.touch order.side).toInt * |order.quantityUnits.toInt| / 1000

/-- What the row at `event` makes of the order for the decision taken at `decided`. -/
inductive Executed (options : Options) (order : OrderRequest) (decided event : MarketEvent)
    (target : Int64) (before after : PaperExchange) : Prop
  | refused : worth order decided < 100 → after.fills = before.fills →
      after.ledger.state.positionUnits = before.ledger.state.positionUnits →
      Executed options order decided event target before after
  | rejected : 100 ≤ worth order decided → order.side = .sell →
      slippedPrice event.bestBidUnits .sell options.marketSlippagePpm = none →
      after.fills = before.fills →
      after.ledger.state.positionUnits = before.ledger.state.positionUnits →
      Executed options order decided event target before after
  | filled (fill : PaperFill) : 100 ≤ worth order decided → FilledAt options order event fill →
      after.fills = before.fills ++ [fill] → after.ledger.state.positionUnits = target →
      Executed options order decided event target before after

theorem Tracking.unknown {rows : List MarketEvent} {pending : PendingDecision}
    (h : Tracking options rows state) (hsends : Sends state pending) :
    state.exchange.findOrder (sentOrder state pending).clientOrderId = none :=
  h.consistent.indexed.findOrder_eq_none (h.fresh pending hsends.1)

theorem Kept.rests (h : Kept options seen state) (hrows : Comparable options (seen ++ [next]))
    (hidle : ∀ pending, ¬ Sends state pending) :
    (Replay.step options state next.event).exchange.fills = state.exchange.fills ∧
      (Replay.step options state next.event).exchange.ledger.state.positionUnits =
        state.exchange.ledger.state.positionUnits := by
  rw [step_of_inWindow _ _ _ hrows.inWindow_next, hear_exchange,
    (settlePending_of_idle state hidle).1]
  exact ⟨settled_fills h.settled, (settled_heard h.consistent h.settled).2⟩

theorem Kept.toInt_notional {pending : PendingDecision} {row : DecidedRow} {notional : Int64}
    (h : Kept options seen state)
    (hnotional : calculateNotional
      (RiskEngine.referencePrice (sentOrder state pending) row.event)
      (normalized state.exchange.config (sentOrder state pending)).quantityUnits
      state.exchange.config.ledger = some notional) :
    notional.toInt = worth (sentOrder state pending) row.event := by
  rw [normalized_of_step_one (by rw [h.consistent.config_eq]; rfl), h.consistent.config_eq]
    at hnotional
  exact toInt_calculateNotional
    ((int64_pos_iff _).mp (row.wellFormed.quoted.touch (sentOrder state pending).side)) hnotional

theorem Kept.refused {pending : PendingDecision} {row : DecidedRow} {reason : String}
    (h : Kept options seen state) (hrows : Comparable options (seen ++ [next]))
    (hundisturbed : Undisturbed options state next.event) (hrow : row ∈ seen.getLast?)
    (hsends : Sends state pending)
    (hrefusal : state.exchange.refusal (sentOrder state pending) row.event
      pending.decisionTimeNs = some reason) (target : Int64) :
    Executed options (sentOrder state pending) row.event next.event target state.exchange
      (Replay.step options state next.event).exchange := by
  have hmarket : state.exchange.market = some row.event := by rw [h.market, hrow]; rfl
  have hsubmit : state.exchange.submit (sentOrder state pending) pending.decisionTimeNs =
      (state.exchange, { reason }) := by
    unfold submit
    simp [h.unknown hsends, h.configValid, hmarket, hrefusal]
  have hreason := hundisturbed.1 pending hsends.1 hsends
  rw [hsubmit] at hreason
  obtain ⟨notional, hnotional, hlt⟩ := notional_lt_of_refusal hrefusal hreason
  rw [h.consistent.config_eq, Int64.lt_iff_toInt_lt, h.toInt_notional hnotional] at hlt
  have hstart : (Replay.settlePending state).exchange = state.exchange := by
    rw [(settlePending_of_sends state hsends).1, call, hsubmit]
  rw [step_of_inWindow _ _ _ hrows.inWindow_next, hear_exchange, hstart]
  exact .refused hlt (settled_fills h.settled) (settled_heard h.consistent h.settled).2

theorem Kept.stored {pending : PendingDecision} {row : DecidedRow}
    (h : Kept options seen state) (hrows : Comparable options (seen ++ [next]))
    (hundisturbed : Undisturbed options state next.event) (hrow : row ∈ seen.getLast?)
    (hsends : Sends state pending)
    (hpasses : state.exchange.refusal (sentOrder state pending) row.event
      pending.decisionTimeNs = none) :
    Executed options (sentOrder state pending) row.event next.event
      (target pending.decision.action state.exchange.ledger.state.positionUnits) state.exchange
      (Replay.step options state next.event).exchange := by
  have hconsistent := h.settlePending.consistent
  have hadmitted : state.exchange.Admitted (sentOrder state pending) row.event
      pending.decisionTimeNs :=
    ⟨h.unknown hsends, h.configValid, by rw [h.market, hrow]; rfl, hpasses⟩
  -- it is worth the least notional, or it would have been refused
  obtain ⟨notional, hnotional, hworth⟩ := (passes_of_refusal_eq_none hpasses).notional
  rw [h.consistent.config_eq, Int64.le_iff_toInt_le, h.toInt_notional hnotional] at hworth
  rcases h.sent hsends with ⟨he, _⟩ | ⟨_, hquiet, order, hwaiting, _, hrequest, hremaining, _⟩
  · rw [(settlePending_of_sends state hsends).1] at he
    exact absurd (congrArg PaperExchange.orders he) (stores_iff.mpr ⟨_, hadmitted⟩)
  · obtain ⟨pre, cell, _, houtcome, horders, _, hfills, hposition⟩ :=
      hwaiting.outcome hconsistent (h.accepts_next hrows)
        (h.due_next hrows order hwaiting.mem hwaiting.isLive)
    have hrejected := hundisturbed.2
    rw [step_of_inWindow _ _ _ hrows.inWindow_next, hear_exchange] at hrejected ⊢
    rw [hconsistent.config_eq, hquiet] at houtcome
    have hmoved := houtcome.cases h.consistent.booked.sound hwaiting.remaining
    cases houtcome with
    | rejected reason hreason =>
      obtain ⟨hside, htext⟩ := hrejected (order.reject reason)
        (by rw [horders]; exact List.mem_append_right _ (List.mem_singleton_self _)) rfl
      replace hside : order.request.side = .sell := hside
      have hnone := hreason.mp htext
      rw [hside] at hnone
      exact .rejected hworth (hrequest ▸ hside) hnone hfills hposition
    | filled price fee ledger mutation hprice hfee hbook hm =>
      refine .filled _ hworth ?_ hfills ?_
      · exact ⟨rfl, congrArg OrderRequest.side hrequest, hremaining, hrequest ▸ hprice, hfee⟩
      · rcases hmoved with ⟨hrejected, _⟩ | ⟨_, hmoved⟩
        · exact absurd hrejected (by simp [PaperOrder.take])
        · have hreaches := hwaiting.reaches
          rw [hquiet, ← hmoved] at hreaches
          rw [hposition]
          exact Int64.toInt_inj.mp hreaches

theorem lastAction_eq {row : DecidedRow} (h : row ∈ seen.getLast?) :
    lastAction seen = row.action := by
  rw [lastAction, Option.mem_def.mp h]
  rfl

theorem Kept.decides {pending : PendingDecision} (h : Kept options seen state)
    (hpending : state.pendingDecision = some pending) :
    pending.decision.succeeded = true ∧ pending.decision.action = lastAction seen ∧
      ∃ row, row ∈ seen.getLast? := by
  obtain ⟨row, hlast, hsucceeded, haction, _⟩ := h.waits_of_pending hpending
  exact ⟨hsucceeded, haction.trans (lastAction_eq hlast).symm, row, hlast⟩

theorem Kept.sends_iff (h : Kept options seen state) : (∃ pending, Sends state pending) ↔
    ¬ AtTarget (lastAction seen) state.exchange.ledger.state.positionUnits := by
  constructor
  · rintro ⟨pending, hpending, _, hne⟩ hat
    rw [← (h.decides hpending).2.1] at hat
    exact hne (distance_eq_zero.mpr hat)
  · intro hnot
    cases hpending : state.pendingDecision with
    | none =>
      refine absurd ?_ hnot
      cases hlast : seen.getLast? with
      | none =>
        rw [lastAction, hlast]
        rfl
      | some row =>
        obtain ⟨pending, hsome, _⟩ := h.waits row hlast
        exact absurd (hpending.symm.trans hsome) (by simp)
    | some pending =>
      obtain ⟨hsucceeded, haction, _⟩ := h.decides hpending
      refine ⟨pending, hpending, hsucceeded, fun hzero => hnot ?_⟩
      rw [← haction]
      exact distance_eq_zero.mp hzero

theorem Kept.executed {pending : PendingDecision} (h : Kept options seen state)
    (hrows : Comparable options (seen ++ [next]))
    (hundisturbed : Undisturbed options state next.event) (hsends : Sends state pending) :
    ∃ row ∈ seen.getLast?, Executed options (sentOrder state pending) row.event next.event
      (target (lastAction seen) state.exchange.ledger.state.positionUnits) state.exchange
      (Replay.step options state next.event).exchange := by
  obtain ⟨_, haction, row, hrow⟩ := h.decides hsends.1
  refine ⟨row, hrow, ?_⟩
  cases hrefusal : state.exchange.refusal (sentOrder state pending) row.event
      pending.decisionTimeNs with
  | none => exact haction ▸ h.stored hrows hundisturbed hrow hsends hrefusal
  | some reason => exact h.refused hrows hundisturbed hrow hsends hrefusal _

end Turns
end Astra.Replay
