import AstraTrader.Replay.Metrics

/-! Replays of a decision tape at two cadences: a decision that the tape does not hold is never
carried out, so the two runs trade alike. -/

namespace Astra.Replay
open Process PaperExchange

/-- A line of the detail output, by what it prints. -/
inductive DetailLine
  | decision (decision : ModelDecision) (proposedAction : ModelAction) (gateHold : Bool)
  | fill (fill : PaperFill)
  deriving DecidableEq

/-- The decision that an accepted row calls for, before the gate. -/
def proposal (options : Options) (state : State) (event : MarketEvent) : Option ModelDecision :=
  let (_, modelState) := state.features.update event state.exchange.ledger.state.positionUnits
  if event.sequence % options.decisionEvery = 0 ∨
      options.model.tapeDecision event.sequence = true then
    some (options.model.decide state.metrics.decisions modelState)
  else none

def decisionDetail (options : Options) (decision : ModelDecision) : DetailLine :=
  .decision (gate options decision) decision.action
    (decision.probabilityPpm < options.probabilityThresholdPpm)

structure Detailed where
  state : State
  lastFillCount : ℕ := 0
  lines : List DetailLine := []

/-- The state in which `observe` meets an accepted row. -/
def heardState (state : State) (row : MarketEvent) : State :=
  { settlePending state with
    exchange := ((settlePending state).exchange.onMarketEvent row).1 }

def detailStep (options : Options) (detailed : Detailed) (row : MarketEvent) : Detailed :=
  let state := step options detailed.state row
  if Heard options detailed.state row then
    { state
      lastFillCount := max detailed.lastFillCount state.exchange.fills.length
      lines := detailed.lines ++
        ((proposal options (heardState detailed.state row) row).map
          (decisionDetail options)).toList ++
        (state.exchange.fills.drop detailed.lastFillCount).map .fill }
  else { detailed with state }

def detailedReplay (options : Options) (rows : List MarketEvent) : Detailed :=
  rows.foldl (detailStep options) { state := initial options }

def Options.withCadence (options : Options) (decisionEvery : UInt64) (h : 0 < decisionEvery) :
    Options :=
  { options with decisionEvery, decisionEvery_pos := h }

/-- The line is about a fill, or about a decision that the tape holds. -/
def DecisionTape.Prints (tape : DecisionTape) : DetailLine → Bool
  | .decision decision _ _ => tape.contains decision.stateSequence
  | .fill _ => true

/-- A decision that never becomes an order. -/
def Idle (pendingDecision : Option PendingDecision) : Prop :=
  ∀ pending ∈ pendingDecision, pending.decision.succeeded = false

def State.recast (state : State) (decisions : ℕ) (pendingDecision : Option PendingDecision) :
    State :=
  { state with metrics := { state.metrics with decisions }, pendingDecision }

/-- Two states of the loop that trade alike: they differ in the number of decisions, and in a
pending decision that neither carries out. -/
def Alike (s t : State) : Prop :=
  ∃ decisions pendingDecision, t = s.recast decisions pendingDecision ∧
    (pendingDecision = s.pendingDecision ∨ Idle s.pendingDecision ∧ Idle pendingDecision)

section Turn
variable {options : Options} {tape : DecisionTape} {s t : State} {row : MarketEvent}
  {decisions : ℕ} {pendingDecision : Option PendingDecision}

theorem settlePending_of_idle_pending (h : Idle s.pendingDecision) :
    settlePending s = { s with pendingDecision := none } := by
  obtain ⟨exchange, features, metrics, pendingDecision⟩ := s
  cases pendingDecision with
  | none => rfl
  | some pending =>
    have hfailed : ¬ pending.decision.succeeded = true := by rw [h pending rfl]; simp
    unfold settlePending
    dsimp only
    rw [if_neg fun hsend => hfailed hsend.1]

theorem settlePending_recast (s : State) (decisions : ℕ) :
    settlePending (s.recast decisions s.pendingDecision) =
      (settlePending s).recast decisions none := by
  obtain ⟨exchange, features, metrics, pendingDecision⟩ := s
  cases pendingDecision with
  | none => rfl
  | some pending =>
    unfold settlePending State.recast
    dsimp only
    split_ifs <;> rfl

theorem Alike.settlePending (h : Alike s t) :
    ∃ decisions, settlePending t = (settlePending s).recast decisions none := by
  obtain ⟨decisions, pendingDecision, rfl, rfl | ⟨hs, ht⟩⟩ := h
  · exact ⟨decisions, settlePending_recast s decisions⟩
  · refine ⟨decisions, ?_⟩
    rw [settlePending_of_idle_pending hs, settlePending_of_idle_pending ht]
    rfl

theorem gate_decide_succeeded {sequence : UInt64} (h : tape.contains sequence = false) :
    (gate options (tape.decide sequence)).succeeded = false := by
  have herror : ∀ decision, (gate options decision).error = decision.error := by
    intro decision
    unfold gate
    split_ifs <;> rfl
  have hnone : tape.find sequence = none :=
    Option.isNone_iff_eq_none.mp (Option.isSome_eq_false_iff.mp h)
  unfold ModelDecision.succeeded
  rw [herror, DecisionTape.decide, hnone]
  simp [String.append_eq_empty_iff]

variable {a b : UInt64} {ha : 0 < a} {hb : 0 < b}

/-- An accepted row leaves a decision of the tape in both runs, or nothing that is carried out. -/
theorem observe_alike (hmodel : options.model = .tape tape) (hnone : s.pendingDecision = none) :
    Alike (observe (options.withCadence a ha) s row)
      (observe (options.withCadence b hb) (s.recast decisions none) row) := by
  obtain ⟨exchange, features, metrics, pendingDecision⟩ := s
  subst hnone
  have hkept : (options.withCadence a ha).model = .tape tape ∧
      (options.withCadence b hb).model = .tape tape := ⟨hmodel, hmodel⟩
  unfold observe State.recast
  dsimp only
  rw [hkept.1, hkept.2]
  by_cases hcontains : tape.contains row.sequence = true
  · rw [if_pos (.inr hcontains), if_pos (.inr hcontains)]
    exact ⟨_, _, rfl, .inl rfl⟩
  · have hfailed := @gate_decide_succeeded options tape row.sequence
      (Bool.eq_false_iff.mpr hcontains)
    have hidle : ∀ (time : Int64), Idle (some ⟨gate options (tape.decide row.sequence), time⟩) :=
      fun time pending hpending => by rw [← Option.some.inj hpending, hfailed]
    have hidleNone : Idle none := by simp [Idle]
    split_ifs
    · exact ⟨_, _, rfl, .inr ⟨hidle _, hidle _⟩⟩
    · exact ⟨_, _, rfl, .inr ⟨hidle _, hidleNone⟩⟩
    · exact ⟨_, _, rfl, .inr ⟨hidleNone, hidle _⟩⟩
    · exact ⟨_, _, rfl, .inl rfl⟩

theorem Alike.step (hmodel : options.model = .tape tape) (h : Alike s t) :
    Alike (step (options.withCadence a ha) s row) (step (options.withCadence b hb) t row) := by
  by_cases hwindow : inWindow options row
  · have hwindows : inWindow (options.withCadence a ha) row ∧
        inWindow (options.withCadence b hb) row := ⟨hwindow, hwindow⟩
    rw [step_of_inWindow _ _ _ hwindows.1, step_of_inWindow _ _ _ hwindows.2]
    obtain ⟨decisions, hsettled⟩ := h.settlePending
    have hnone := settlePending_pending s
    rw [hsettled]
    generalize Replay.settlePending s = settled at hnone ⊢
    by_cases haccepts : settled.exchange.accepts row
    · have hrecast : (settled.recast decisions none).exchange.accepts row := haccepts
      rw [hear_of_accepts _ _ _ haccepts, hear_of_accepts _ _ _ hrecast]
      exact observe_alike hmodel hnone
    · have hrecast : ¬ (settled.recast decisions none).exchange.accepts row := haccepts
      rw [hear_of_not_accepts _ _ _ haccepts, hear_of_not_accepts _ _ _ hrecast]
      exact ⟨decisions, none, rfl, .inl hnone.symm⟩
  · have hwindows : ¬ inWindow (options.withCadence a ha) row ∧
        ¬ inWindow (options.withCadence b hb) row := ⟨hwindow, hwindow⟩
    rw [step_of_not_inWindow _ _ _ hwindows.1, step_of_not_inWindow _ _ _ hwindows.2]
    exact h

theorem Alike.heard_iff (h : Alike s t) :
    Heard (options.withCadence a ha) s row ↔ Heard (options.withCadence b hb) t row := by
  obtain ⟨decisions, hsettled⟩ := h.settlePending
  unfold Heard
  rw [hsettled]
  exact Iff.rfl

theorem filter_proposal (hmodel : options.model = .tape tape) :
    ((proposal (options.withCadence a ha) s row).map
      (decisionDetail (options.withCadence a ha))).toList.filter tape.Prints =
        if tape.contains row.sequence = true then
          [decisionDetail options (tape.decide row.sequence)]
        else [] := by
  have hkept : (options.withCadence a ha).model = .tape tape := hmodel
  have hsequence := decide_stateSequence (.tape tape) s.metrics.decisions
    (s.features.update row s.exchange.ledger.state.positionUnits).2
  have hprints : tape.Prints (decisionDetail (options.withCadence a ha)
      (tape.decide row.sequence)) = tape.contains row.sequence := by
    show tape.contains (gate _ (tape.decide row.sequence)).stateSequence = _
    rw [gate_stateSequence]
    exact congrArg tape.contains hsequence
  unfold proposal
  rw [hkept]
  dsimp only
  by_cases hcontains : tape.contains row.sequence = true
  · rw [if_pos (.inr hcontains), if_pos hcontains]
    exact List.filter_cons_of_pos (hprints.trans hcontains)
  · rw [if_neg hcontains]
    split_ifs
    · exact List.filter_cons_of_neg (by rw [← hprints] at hcontains; exact hcontains)
    · rfl

structure AlikeDetailed (tape : DecisionTape) (d e : Detailed) : Prop where
  state : Alike d.state e.state
  lastFillCount : d.lastFillCount = e.lastFillCount
  lines : d.lines.filter tape.Prints = e.lines.filter tape.Prints

theorem Alike.exchange (h : Alike s t) : t.exchange = s.exchange := by
  obtain ⟨decisions, pendingDecision, rfl, _⟩ := h
  rfl

theorem Alike.sends (h : Alike s t) (pending : PendingDecision) :
    (Sends t pending ↔ Sends s pending) ∧ sentOrder t pending = sentOrder s pending := by
  obtain ⟨decisions, pendingDecision, rfl, rfl | ⟨hs, ht⟩⟩ := h
  · exact ⟨Iff.rfl, rfl⟩
  · refine ⟨iff_of_false (fun hsends => ?_) fun hsends => ?_, rfl⟩
    · exact absurd hsends.2.1 (Bool.eq_false_iff.mp (ht pending hsends.1))
    · exact absurd hsends.2.1 (Bool.eq_false_iff.mp (hs pending hsends.1))

theorem AlikeDetailed.step {d e : Detailed} (hmodel : options.model = .tape tape)
    (h : AlikeDetailed tape d e) :
    AlikeDetailed tape (detailStep (options.withCadence a ha) d row)
      (detailStep (options.withCadence b hb) e row) := by
  have hstep := @Alike.step options tape _ _ row _ _ ha hb hmodel h.state
  have hheard := @Alike.heard_iff options _ _ row _ _ ha hb h.state
  unfold detailStep
  dsimp only
  by_cases hrow : Heard (options.withCadence a ha) d.state row
  · rw [if_pos hrow, if_pos (hheard.mp hrow)]
    refine ⟨hstep, ?_, ?_⟩
    · rw [hstep.exchange, h.lastFillCount]
    · simp only [List.filter_append, filter_proposal hmodel, h.lines, h.lastFillCount,
        hstep.exchange]
  · rw [if_neg hrow, if_neg (mt hheard.mpr hrow)]
    exact ⟨hstep, h.lastFillCount, h.lines⟩

end Turn

theorem detailedReplay_state (options : Options) (rows : List MarketEvent) :
    (detailedReplay options rows).state = replay options rows := by
  refine foldl_observed (f := Detailed.state) (fun detailed row => ?_) _ rows
  unfold detailStep
  dsimp only
  split_ifs <;> rfl

theorem alike_detailedReplay {options : Options} {tape : DecisionTape}
    (hmodel : options.model = .tape tape) {a b : UInt64} (ha : 0 < a) (hb : 0 < b)
    (rows : List MarketEvent) : AlikeDetailed tape (detailedReplay (options.withCadence a ha) rows)
      (detailedReplay (options.withCadence b hb) rows) := by
  have hstep : ∀ d e row, AlikeDetailed tape d e → AlikeDetailed tape
      (detailStep (options.withCadence a ha) d row) (detailStep (options.withCadence b hb) e row) :=
    fun d e row h => h.step hmodel
  exact run_simulation_of_forall _ hstep ⟨⟨_, _, rfl, .inl rfl⟩, rfl, rfl⟩ rows

theorem report_recast (state : State) (decisions : ℕ)
    (pendingDecision : Option PendingDecision) :
    report (state.recast decisions pendingDecision) = { report state with decisions } := rfl

/-- Two replays with the same orders sent, the same exchange after every row and the same output,
apart from the number of decisions and the lines that tell of decisions outside the tape. -/
structure SameReplay (options other : Options) (tape : DecisionTape) (rows : List MarketEvent) :
    Prop where
  sends : ∀ k pending,
    (Sends (replay other (rows.take k)) pending ↔ Sends (replay options (rows.take k)) pending) ∧
      sentOrder (replay other (rows.take k)) pending =
        sentOrder (replay options (rows.take k)) pending
  exchange : ∀ k, (replay other (rows.take k)).exchange = (replay options (rows.take k)).exchange
  report : ∃ decisions, report (replay other rows) =
    { report (replay options rows) with decisions }
  detail : (detailedReplay other rows).lines.filter tape.Prints =
    (detailedReplay options rows).lines.filter tape.Prints

/-- A replay of a tape does not depend on the cadence. -/
theorem replay_cadence {options : Options} {tape : DecisionTape}
    (hmodel : options.model = .tape tape) {a b : UInt64} (ha : 0 < a) (hb : 0 < b)
    (rows : List MarketEvent) :
    SameReplay (options.withCadence a ha) (options.withCadence b hb) tape rows := by
  have halike : ∀ rows, Alike (replay (options.withCadence a ha) rows)
      (replay (options.withCadence b hb) rows) := by
    intro rows
    rw [← detailedReplay_state, ← detailedReplay_state]
    exact (alike_detailedReplay hmodel ha hb rows).state
  refine ⟨fun k => (halike _).sends, fun k => (halike _).exchange, ?_,
    (alike_detailedReplay hmodel ha hb rows).lines.symm⟩
  obtain ⟨decisions, pendingDecision, hrecast, _⟩ := halike rows
  exact ⟨decisions, by rw [hrecast, report_recast]⟩

/-- Every row takes a decision in the one run, the tape's row alone in the other. -/
theorem replay_cadence_example :
    let row : MarketEvent := { sequence := 1, exchangeTimeNs := 1000, receiveTimeNs := 1001000
                               bestBidUnits := 10000, bestAskUnits := 10001, bidQuantityUnits := 9 }
    let tape : DecisionTape :=
      { decisions := [(1, { action := .longPosition, longProbabilityPpm := 900000
                            stateSequence := 1, model := "tape" })]
        keyed := by decide }
    SameReplay (Options.withCadence { model := .tape tape } 1 (by decide))
      (Options.withCadence { model := .tape tape } 1000 (by decide)) tape
      [row, { row with sequence := 2, exchangeTimeNs := 2000, receiveTimeNs := 1002000 }] :=
  replay_cadence rfl _ _ _

end Astra.Replay
