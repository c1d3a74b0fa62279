import AstraTrader.Process.Log
import AstraTrader.Replay.Cadence

/-! The detail output of a replay as a record of it: all fills and all decisions are in it, in the
order of the rows, and each fill stands after the decision that asked for it. -/

namespace Astra.Replay
open Process PaperExchange

namespace DetailLine

def fill? : DetailLine → Option PaperFill
  | .decision .. => none
  | .fill trade => some trade

def isDecision : DetailLine → Bool
  | .decision .. => true
  | .fill _ => false

/-- The row at which the line is written. -/
def sequence : DetailLine → UInt64
  | .decision made _ _ => made.stateSequence
  | .fill trade => trade.marketSequence

/-- Of two lines about one row the later is about a fill. -/
def Precedes (first later : DetailLine) : Prop :=
  first.sequence < later.sequence ∨
    first.sequence = later.sequence ∧ later.isDecision = false

/-- The line is about a decision that was to become the order of that name. -/
def Orders (name : String) : DetailLine → Prop
  | .decision made proposedAction gateHold =>
    name = clientOrderId made.stateSequence ∧ made.succeeded = true ∧
      made.action = proposedAction ∧ proposedAction ≠ .hold ∧ gateHold = false
  | .fill _ => False

/-- A decision is held exactly below the threshold; a fill has a decision before it. -/
def Follows (options : Options) (before : List DetailLine) : DetailLine → Prop
  | .decision made proposedAction gateHold =>
    (gateHold = true ↔ ({ made with action := proposedAction } : ModelDecision).probabilityPpm <
      options.probabilityThresholdPpm) ∧
    made.action = if gateHold then .hold else proposedAction
  | .fill trade => ∃ line ∈ before, line.Orders trade.clientOrderId

theorem Follows.grow {options : Options} {before : List DetailLine} {line : DetailLine}
    (h : Follows options before line) (later : List DetailLine) :
    Follows options (before ++ later) line := by
  cases line with
  | decision => exact h
  | fill trade =>
    obtain ⟨line, hline, horders⟩ := h
    exact ⟨line, List.mem_append_left _ hline, horders⟩

theorem filterMap_fill? (fills : List PaperFill) :
    (fills.map DetailLine.fill).filterMap fill? = fills := by
  rw [List.filterMap_map]
  exact List.filterMap_some

theorem countP_fill (fills : List PaperFill) :
    (fills.map DetailLine.fill).countP isDecision = 0 := by
  rw [List.countP_map]
  exact List.countP_eq_zero.mpr fun fill _ => Bool.false_ne_true

theorem follows_decisionDetail (options : Options) (before : List DetailLine)
    (decision : ModelDecision) : Follows options before (decisionDetail options decision) := by
  unfold decisionDetail gate
  by_cases h : decision.probabilityPpm < options.probabilityThresholdPpm
  · rw [if_pos h]
    exact ⟨by simp [h], by simp [h]⟩
  · rw [if_neg h]
    exact ⟨by simp [h], by simp [h]⟩

end DetailLine

/-- What the lines written so far record. -/
structure Logged (options : Options) (lines : List DetailLine) (state : State) : Prop where
  consistent : Consistent (exchangeConfig options) state.exchange
  fills : lines.filterMap DetailLine.fill? = state.exchange.fills
  decisions : lines.countP DetailLine.isDecision = state.metrics.decisions
  ordered : lines.Pairwise DetailLine.Precedes
  passed : ∀ line ∈ lines, ∃ market, state.exchange.market = some market ∧
    line.sequence ≤ market.sequence
  justified : Justified (DetailLine.Follows options) lines
  pending : ∀ p ∈ state.pendingDecision, ∃ proposedAction gateHold,
    .decision p.decision proposedAction gateHold ∈ lines
  orders : ∀ order ∈ state.exchange.orders, ∃ line ∈ lines,
    line.Orders order.request.clientOrderId

section Turn
variable {options : Options} {lines : List DetailLine} {state : State} {row : MarketEvent}

theorem settlePending_decisions (state : State) :
    (settlePending state).metrics.decisions = state.metrics.decisions := by
  unfold settlePending
  cases state.pendingDecision with
  | none => rfl
  | some pending =>
    dsimp only
    split_ifs <;> rfl

theorem Logged.sent (h : Logged options lines state) {pending : PendingDecision}
    (hsends : Sends state pending) :
    ∃ line ∈ lines, line.Orders (sentOrder state pending).clientOrderId := by
  obtain ⟨proposedAction, gateHold, hline⟩ := h.pending pending hsends.1
  obtain ⟨before, ⟨_, haction⟩, _⟩ := h.justified.of_mem hline
  have hmoves : pending.decision.action ≠ .hold := by
    intro hhold
    apply hsends.2.2
    rw [distance, hhold]
    exact Int64.sub_self _
  refine ⟨_, hline, rfl, hsends.2.1, ?_⟩
  cases gateHold with
  | true => exact absurd haction hmoves
  | false =>
    have hsame : pending.decision.action = proposedAction := haction
    exact ⟨hsame, hsame ▸ hmoves, rfl⟩

theorem Logged.settlePending (h : Logged options lines state) :
    Logged options lines (settlePending state) := by
  obtain ⟨hbooks, _⟩ := settlePending_quiet h.consistent
  refine ⟨?_, ?_, (settlePending_decisions state).symm ▸ h.decisions, h.ordered, ?_, h.justified,
    ?_, ?_⟩
  · rcases sends_or_idle state with ⟨pending, hsends⟩ | hidle
    · rw [(settlePending_of_sends state hsends).1]
      exact h.consistent.call _
    · rw [(settlePending_of_idle state hidle).1]
      exact h.consistent
  · rw [h.fills]
    exact congrArg Executions.fills hbooks.symm
  · rw [settlePending_market]
    exact h.passed
  · rw [settlePending_pending]
    exact fun p hp => absurd hp (by simp)
  · rcases sends_or_idle state with ⟨pending, hsends⟩ | hidle
    · rw [(settlePending_of_sends state hsends).1]
      apply call_named (P := fun name => ∃ line ∈ lines, line.Orders name) h.orders
      intro request decisionTimeNs hcall
      rw [← (ExchangeCall.submit.inj hcall).1]
      exact h.sent hsends
    · rw [(settlePending_of_idle state hidle).1]
      exact h.orders

theorem Logged.ignored (h : Logged options lines state) (hignored : ¬ state.exchange.accepts row) :
    Logged options lines (hear options state row) := by
  rw [hear_of_not_accepts _ _ _ hignored]
  have hcall := call_of_ignored hignored
  refine ⟨h.consistent.call (.onMarketEvent row), ?_, h.decisions, h.ordered, ?_, h.justified,
    h.pending, ?_⟩
  · rw [hcall]
    exact h.fills
  · rw [hcall]
    exact h.passed
  · rw [hcall]
    exact h.orders

theorem observe_decisions (options : Options) (state : State) (row : MarketEvent) :
    (observe options state row).metrics.decisions =
      state.metrics.decisions + (proposal options state row).toList.length := by
  unfold observe proposal
  dsimp only
  split_ifs <;> rfl

theorem observe_proposal {pending : PendingDecision} (hnone : state.pendingDecision = none)
    (h : (observe options state row).pendingDecision = some pending) :
    ∃ proposed ∈ proposal options state row, pending.decision = gate options proposed := by
  unfold observe at h
  unfold proposal
  dsimp only at h ⊢
  split_ifs at h ⊢
  · exact ⟨_, rfl, by rw [← Option.some.inj h]⟩
  · exact absurd (hnone.symm.trans h) (by simp)

theorem proposal_stateSequence {proposed : ModelDecision}
    (h : proposed ∈ proposal options state row) : proposed.stateSequence = row.sequence := by
  unfold proposal at h
  dsimp only at h
  split_ifs at h
  · rw [← Option.some.inj h, decide_stateSequence]
    rfl
  · exact absurd h (by simp)

/-- The lines that an accepted row adds, once what is pending has been settled. -/
def rowLines (options : Options) (state : State) (row : MarketEvent) : List DetailLine :=
  let exchange := state.exchange.call (.onMarketEvent row)
  ((proposal options { state with exchange } row).map (decisionDetail options)).toList ++
    (exchange.fills.drop state.exchange.fills.length).map .fill

theorem mem_rowLines {line : DetailLine} (h : line ∈ rowLines options state row) :
    (∃ proposed ∈ proposal options
        { state with exchange := state.exchange.call (.onMarketEvent row) } row,
      line = decisionDetail options proposed) ∨
    ∃ fill ∈ (state.exchange.call (.onMarketEvent row)).fills.drop state.exchange.fills.length,
      line = .fill fill := by
  rcases List.mem_append.mp h with hmade | hdone
  · obtain ⟨proposed, hproposed, rfl⟩ := Option.map_eq_some_iff.mp (Option.mem_toList.mp hmade)
    exact .inl ⟨proposed, hproposed, rfl⟩
  · obtain ⟨fill, hfill, rfl⟩ := List.mem_map.mp hdone
    exact .inr ⟨fill, hfill, rfl⟩

theorem filledBy_of_new (h : Consistent (exchangeConfig options) state.exchange)
    (haccepts : state.exchange.accepts row) {fill : PaperFill}
    (hfill : fill ∈ (state.exchange.call (.onMarketEvent row)).fills.drop
      state.exchange.fills.length) : FilledBy state.exchange.orders row fill := by
  have hextends := chain_fills_extend (foldl_transitions state.exchange [.onMarketEvent row])
  have hkeys : ((state.exchange.call (.onMarketEvent row)).fills.map (·.fillId)).Nodup := by
    rw [(h.call (.onMarketEvent row)).booked.fillIds]
    exact List.nodup_range'
  have hnew := not_mem_of_mem_drop hextends hkeys hfill
  exact ((handling_onMarketEvent haccepts).fills fill (List.mem_of_mem_drop hfill)).resolve_left
    hnew

theorem sequence_rowLines (h : Consistent (exchangeConfig options) state.exchange)
    (haccepts : state.exchange.accepts row) {line : DetailLine}
    (hline : line ∈ rowLines options state row) : line.sequence = row.sequence := by
  rcases mem_rowLines hline with ⟨proposed, hproposed, rfl⟩ | ⟨fill, hfill, rfl⟩
  · exact (gate_stateSequence _ _).trans (proposal_stateSequence hproposed)
  · exact (filledBy_of_new h haccepts hfill).1

theorem rowLines_ordered (h : Consistent (exchangeConfig options) state.exchange)
    (haccepts : state.exchange.accepts row) :
    (rowLines options state row).Pairwise DetailLine.Precedes := by
  have hsequence := fun line hline => @sequence_rowLines options state row h haccepts line hline
  refine List.pairwise_append.mpr ⟨?_, ?_, fun first hfirst later hlater => ?_⟩
  · cases proposal options { state with exchange := state.exchange.call (.onMarketEvent row) }
      row <;> simp
  · refine List.pairwise_iff_forall_sublist.mpr fun {first later} hpair => ?_
    have hfirst := hpair.subset (List.mem_cons_self ..)
    have hlater := hpair.subset (List.mem_cons_of_mem _ (List.mem_singleton_self _))
    obtain ⟨_, _, rfl⟩ := List.mem_map.mp hlater
    exact .inr ⟨(hsequence _ (List.mem_append_right _ hfirst)).trans
      (hsequence _ (List.mem_append_right _ hlater)).symm, rfl⟩
  · have hboth := (hsequence _ (List.mem_append_left _ hfirst)).trans
      (hsequence _ (List.mem_append_right _ hlater)).symm
    obtain ⟨_, _, rfl⟩ := List.mem_map.mp hlater
    exact .inr ⟨hboth, rfl⟩

theorem Logged.heard (h : Logged options lines state) (hnone : state.pendingDecision = none)
    (haccepts : state.exchange.accepts row) :
    Logged options (lines ++ rowLines options state row) (hear options state row) := by
  have hextends := chain_fills_extend (foldl_transitions state.exchange [.onMarketEvent row])
  have hsequence := fun line hline =>
    @sequence_rowLines options state row h.consistent haccepts line hline
  rw [hear_of_accepts _ _ _ haccepts]
  refine ⟨?_, ?_, ?_, ?_, fun line hline => ?_, ?_, fun p hp => ?_, ?_⟩
  · rw [observe_exchange]
    exact h.consistent.call (.onMarketEvent row)
  · rw [observe_exchange, List.filterMap_append, h.fills, rowLines, List.filterMap_append,
      DetailLine.filterMap_fill?]
    cases proposal options { state with exchange := state.exchange.call (.onMarketEvent row) }
      row <;> exact append_drop_of_prefix hextends
  · rw [observe_decisions, List.countP_append, h.decisions, rowLines, List.countP_append,
      DetailLine.countP_fill]
    cases proposal options { state with exchange := state.exchange.call (.onMarketEvent row) }
      row <;> rfl
  · refine List.pairwise_append.mpr ⟨h.ordered, rowLines_ordered h.consistent haccepts,
      fun first hfirst later hlater => .inl ?_⟩
    obtain ⟨market, hmarket, hle⟩ := h.passed first hfirst
    rw [hsequence later hlater]
    exact UInt64.lt_of_le_of_lt hle (haccepts.2.2.1 market hmarket)
  · rw [observe_exchange]
    refine ⟨row, call_market_of_accepts haccepts, ?_⟩
    rcases List.mem_append.mp hline with hold | hnew
    · obtain ⟨market, hmarket, hle⟩ := h.passed line hold
      exact UInt64.le_of_lt (UInt64.lt_of_le_of_lt hle (haccepts.2.2.1 market hmarket))
    · rw [hsequence line hnew]
      exact UInt64.le_refl _
  · refine h.justified.append (fun before later line hfollows => hfollows.grow later)
      fun line hline => ?_
    rcases mem_rowLines hline with ⟨proposed, _, rfl⟩ | ⟨fill, hfill, rfl⟩
    · exact DetailLine.follows_decisionDetail _ _ _
    · obtain ⟨_, order, horder, _, hname, _⟩ := filledBy_of_new h.consistent haccepts hfill
      obtain ⟨line, hline, hasked⟩ := h.orders order horder
      exact ⟨line, hline, hname ▸ hasked⟩
  · obtain ⟨proposed, hproposed, hdecision⟩ := @observe_proposal options
      { state with exchange := state.exchange.call (.onMarketEvent row) } row p hnone hp
    have hline : decisionDetail options proposed ∈ lines ++ rowLines options state row :=
      List.mem_append_right _ (List.mem_append_left _
        (Option.mem_toList.mpr (Option.map_eq_some_iff.mpr ⟨proposed, hproposed, rfl⟩)))
    rw [hdecision]
    exact ⟨_, _, hline⟩
  · rw [observe_exchange]
    apply call_named (P := fun name => ∃ line ∈ lines ++ rowLines options state row,
      line.Orders name)
    · intro order horder
      obtain ⟨line, hline, hasked⟩ := h.orders order horder
      exact ⟨line, List.mem_append_left _ hline, hasked⟩
    · exact fun request decisionTimeNs hcall => ExchangeCall.noConfusion hcall

theorem Logged.detailStep {detailed : Detailed} (h : Logged options detailed.lines detailed.state)
    (hcount : detailed.lastFillCount = detailed.state.exchange.fills.length) (row : MarketEvent) :
    Logged options (detailStep options detailed row).lines
        (detailStep options detailed row).state ∧
      (detailStep options detailed row).lastFillCount =
        (detailStep options detailed row).state.exchange.fills.length := by
  have hsettled := h.settlePending
  have hbooks := (settlePending_quiet h.consistent).1
  have hfills : (Replay.settlePending detailed.state).exchange.fills =
      detailed.state.exchange.fills := congrArg Executions.fills hbooks
  by_cases hheard : Heard options detailed.state row
  · have hstep : step options detailed.state row =
        hear options (Replay.settlePending detailed.state) row :=
      step_of_inWindow _ _ _ hheard.1
    have hlines := hsettled.heard (settlePending_pending _) hheard.2
    have hgrown := (chain_fills_extend (foldl_transitions
      (Replay.settlePending detailed.state).exchange [.onMarketEvent row])).length_le
    have hexchange := hear_exchange options (Replay.settlePending detailed.state) row
    unfold Replay.detailStep
    dsimp only
    rw [if_pos hheard, hstep]
    constructor
    · rw [hexchange, hcount, List.append_assoc, ← hfills]
      exact hlines
    · rw [hexchange, hcount, ← hfills]
      exact max_eq_right hgrown
  · unfold Replay.detailStep
    dsimp only
    rw [if_neg hheard]
    by_cases hwindow : inWindow options row
    · have hignored : ¬ (Replay.settlePending detailed.state).exchange.accepts row :=
        fun haccepts => hheard ⟨hwindow, haccepts⟩
      rw [step_of_inWindow _ _ _ hwindow]
      refine ⟨hsettled.ignored hignored, ?_⟩
      rw [hear_exchange, call_of_ignored hignored, hcount]
      exact congrArg List.length hfills.symm
    · rw [step_of_not_inWindow _ _ _ hwindow]
      exact ⟨h, hcount⟩

end Turn

theorem logged_initial (options : Options) : Logged options [] (initial options) where
  consistent := consistent_new (exchangeConfig_valid options)
  fills := rfl
  decisions := rfl
  ordered := .nil
  passed line hline := absurd hline (by simp)
  justified := justified_nil
  pending p hp := absurd hp (by simp [initial])
  orders order horder := absurd horder (by simp [initial, PaperExchange.new])

theorem logged_detailedReplay (options : Options) (rows : List MarketEvent) :
    Logged options (detailedReplay options rows).lines (detailedReplay options rows).state :=
  (run_invariant_of_forall (I := fun detailed : Detailed =>
    Logged options detailed.lines detailed.state ∧
      detailed.lastFillCount = detailed.state.exchange.fills.length)
    (fun _ row h => h.1.detailStep h.2 row) ⟨logged_initial options, rfl⟩ rows).1

theorem forall_mem_detailedReplay {options : Options} {P : DetailLine → Prop}
    (hdecision : ∀ (count : ℕ) (modelState : ModelState),
      P (decisionDetail options (options.model.decide count modelState)))
    (hfill : ∀ fill, P (.fill fill)) (rows : List MarketEvent) :
    ∀ line ∈ (detailedReplay options rows).lines, P line := by
  refine run_invariant_of_forall (I := fun detailed : Detailed => ∀ line ∈ detailed.lines, P line)
    (fun detailed row h => ?_) (by simp) rows
  unfold detailStep
  dsimp only
  split_ifs
  · simp only [List.forall_mem_append]
    refine ⟨⟨h, fun line hline => ?_⟩, List.forall_mem_map.mpr fun fill _ => hfill fill⟩
    obtain ⟨proposed, hproposed, rfl⟩ :=
      Option.map_eq_some_iff.mp (Option.mem_toList.mp hline)
    unfold proposal at hproposed
    dsimp only at hproposed
    split_ifs at hproposed
    rw [← Option.some.inj hproposed]
    exact hdecision _ _
  · exact h

/-- What the detail output of a replay says about it. -/
structure Recorded (options : Options) (lines : List DetailLine) (state : State) : Prop where
  fills : lines.filterMap DetailLine.fill? = state.exchange.fills
  decisions : lines.countP DetailLine.isDecision = (report state).decisions
  ordered : lines.Pairwise DetailLine.Precedes
  decision : ∀ made proposedAction gateHold, .decision made proposedAction gateHold ∈ lines →
    (gateHold = true ↔ ({ made with action := proposedAction } : ModelDecision).probabilityPpm <
      options.probabilityThresholdPpm) ∧ made.action = if gateHold then .hold else proposedAction
  fill : ∀ before fill after, lines = before ++ .fill fill :: after →
    ∃ line ∈ before, line.Orders fill.clientOrderId

/-- All fills and all decisions of a replay are in its detail output, in the order of the rows;
each decision with what the gate made of it, each fill after a decision to trade that passed the
gate and has its order's name. -/
theorem detailedReplay_recorded (options : Options) (rows : List MarketEvent) :
    Recorded options (detailedReplay options rows).lines (replay options rows) := by
  have hlogged := logged_detailedReplay options rows
  rw [detailedReplay_state] at hlogged
  refine ⟨hlogged.fills, hlogged.decisions, hlogged.ordered, fun made proposedAction gateHold
    hline => ?_, fun before fill after hsplit => hlogged.justified before _ after hsplit⟩
  exact (hlogged.justified.of_mem hline).choose_spec.1

end Astra.Replay
