import AstraTrader.Ledger.Accounting
import AstraTrader.Process.Extremes
import AstraTrader.Replay.Target
import Mathlib.Algebra.Order.Group.MinMax

/-! What the figures of a replay mean: the equity after each event that the exchange accepted, the
largest fall between any two of these, and the sums over the fills. -/

namespace Astra.Replay
open Process FixedWidth PaperExchange

/-- The exchange accepts the row, after what is pending has been settled. -/
def Heard (options : Options) (state : State) (row : MarketEvent) : Prop :=
  inWindow options row ∧ (settlePending state).exchange.accepts row

instance (options : Options) (state : State) (row : MarketEvent) :
    Decidable (Heard options state row) := inferInstanceAs (Decidable (_ ∧ _))

def State.equity (state : State) : Int64 := state.exchange.ledger.state.equityUnits

/-- The equity after each row of a run that the exchange accepts. -/
def equitiesFrom (options : Options) (state : State) : List MarketEvent → List Int64
  | [] => []
  | row :: rows =>
    let next := step options state row
    if Heard options state row then next.equity :: equitiesFrom options next rows
    else equitiesFrom options next rows

/-- The initial equity and the equity after each accepted row. -/
def equities (options : Options) (rows : List MarketEvent) : List Int64 :=
  (initial options).equity :: equitiesFrom options (initial options) rows

section Turn
variable (options : Options) (state : State) (row : MarketEvent)

theorem step_quiet (h : Consistent (exchangeConfig options) state.exchange)
    (hskipped : ¬ Heard options state row) :
    (step options state row).exchange.toExecutions = state.exchange.toExecutions := by
  by_cases hwindow : inWindow options row
  · rw [step_of_inWindow _ _ _ hwindow,
      (hear_ignored fun haccepts => hskipped ⟨hwindow, haccepts⟩).1, (settlePending_quiet h).1]
  · rw [step_of_not_inWindow _ _ _ hwindow]

theorem observe_metrics :
    (observe options state row).metrics.initialEquity = state.metrics.initialEquity ∧
      (observe options state row).metrics.peakEquity =
        max state.metrics.peakEquity state.equity ∧
      (observe options state row).metrics.maxDrawdown = max state.metrics.maxDrawdown
        (max state.metrics.peakEquity state.equity - state.equity) := by
  unfold observe
  dsimp only
  split_ifs <;> exact ⟨rfl, rfl, rfl⟩

theorem settlePending_metrics :
    (settlePending state).metrics.initialEquity = state.metrics.initialEquity ∧
      (settlePending state).metrics.peakEquity = state.metrics.peakEquity ∧
      (settlePending state).metrics.maxDrawdown = state.metrics.maxDrawdown := by
  unfold settlePending
  cases state.pendingDecision with
  | none => exact ⟨rfl, rfl, rfl⟩
  | some pending =>
    dsimp only
    split_ifs <;> exact ⟨rfl, rfl, rfl⟩

theorem step_heard_metrics (h : Heard options state row) :
    (step options state row).metrics.initialEquity = state.metrics.initialEquity ∧
      (step options state row).metrics.peakEquity =
        max state.metrics.peakEquity (step options state row).equity ∧
      (step options state row).metrics.maxDrawdown = max state.metrics.maxDrawdown
        (max state.metrics.peakEquity (step options state row).equity -
          (step options state row).equity) := by
  obtain ⟨hinitial, hpeak, hdrawdown⟩ := settlePending_metrics state
  rw [step_of_inWindow _ _ _ h.1, hear_of_accepts _ _ _ h.2]
  unfold State.equity
  rw [observe_exchange, ← hinitial, ← hpeak, ← hdrawdown]
  exact observe_metrics _ _ _

theorem hear_ignored_metrics (h : ¬ state.exchange.accepts row) :
    (hear options state row).metrics =
      { state.metrics with ignoredEvents := state.metrics.ignoredEvents + 1 } := by
  rw [hear_of_not_accepts _ _ _ h]

theorem step_quiet_metrics (hskipped : ¬ Heard options state row) :
    (step options state row).metrics.initialEquity = state.metrics.initialEquity ∧
      (step options state row).metrics.peakEquity = state.metrics.peakEquity ∧
      (step options state row).metrics.maxDrawdown = state.metrics.maxDrawdown := by
  by_cases hwindow : inWindow options row
  · rw [step_of_inWindow _ _ _ hwindow,
      hear_ignored_metrics _ _ _ fun haccepts => hskipped ⟨hwindow, haccepts⟩]
    exact settlePending_metrics state
  · rw [step_of_not_inWindow _ _ _ hwindow]
    exact ⟨rfl, rfl, rfl⟩

end Turn

section Runs
variable {options : Options} {rows : List MarketEvent} {row : MarketEvent}

theorem equitiesFrom_append (state : State) (first later : List MarketEvent) :
    equitiesFrom options state (first ++ later) = equitiesFrom options state first ++
      equitiesFrom options (first.foldl (step options) state) later := by
  induction first generalizing state with
  | nil => rfl
  | cons row rows ih =>
    simp only [List.cons_append, equitiesFrom, List.foldl_cons, ih]
    split_ifs <;> rfl

theorem equities_concat : equities options (rows ++ [row]) = equities options rows ++
    if Heard options (replay options rows) row then [(replay options (rows ++ [row])).equity]
    else [] := by
  unfold equities
  rw [equitiesFrom_append, List.cons_append, replay_concat]
  rfl

/-- The figures kept along the run are those of the equities so far. -/
structure Metered (options : Options) (rows : List MarketEvent) (state : State) : Prop where
  initial : state.metrics.initialEquity = (Replay.initial options).equity
  last : (equities options rows).getLast? = some state.equity
  peak : IsGreatest {e | e ∈ (equities options rows).map Int64.toInt}
    state.metrics.peakEquity.toInt
  drawdown : IsGreatest (Falls ((equities options rows).map Int64.toInt))
    state.metrics.maxDrawdown.toInt

/-- No fall between two equities is too large for a word. -/
def FallsFit (options : Options) (rows : List MarketEvent) : Prop :=
  ∀ fall ∈ Falls ((equities options rows).map Int64.toInt), InRange64 fall

theorem metered_nil : Metered options [] (replay options []) where
  initial := rfl
  last := rfl
  peak := isGreatest_singleton_list
  drawdown := isGreatest_falls_singleton

theorem FallsFit.of_concat (h : FallsFit options (rows ++ [row])) : FallsFit options rows := by
  intro fall hfall
  refine h fall ?_
  rw [equities_concat]
  split_ifs
  · rw [List.map_append]
    exact mem_falls_concat.mpr (.inl hfall)
  · rwa [List.append_nil]

theorem Metered.skipped (h : Metered options rows (replay options rows))
    (hskipped : ¬ Heard options (replay options rows) row) :
    Metered options (rows ++ [row]) (replay options (rows ++ [row])) := by
  have hconsistent := (traced_replay options rows).consistent
  have hsame : equities options (rows ++ [row]) = equities options rows := by
    rw [equities_concat, if_neg hskipped, List.append_nil]
  have hequity : (step options (replay options rows) row).equity =
      (replay options rows).equity :=
    congrArg (fun books => books.ledger.state.equityUnits)
      (step_quiet options _ row hconsistent hskipped)
  obtain ⟨hinitial, hpeak, hdrawdown⟩ := step_quiet_metrics options _ row hskipped
  rw [replay_concat]
  refine ⟨hinitial.trans h.initial, ?_, ?_, ?_⟩
  · rw [hsame, hequity]
    exact h.last
  · rw [hsame, hpeak]
    exact h.peak
  · rw [hsame, hdrawdown]
    exact h.drawdown

theorem Metered.heard (h : Metered options rows (replay options rows))
    (hfit : FallsFit options (rows ++ [row])) (hheard : Heard options (replay options rows) row) :
    Metered options (rows ++ [row]) (replay options (rows ++ [row])) := by
  have hgrown : equities options (rows ++ [row]) =
      equities options rows ++ [(step options (replay options rows) row).equity] := by
    rw [equities_concat, if_pos hheard, replay_concat]
  obtain ⟨hinitial, hpeak, hdrawdown⟩ := step_heard_metrics options _ row hheard
  rw [replay_concat]
  set value := (step options (replay options rows) row).equity
  have htop := @isGreatest_concat _ _ _ value.toInt _ h.peak
  have hlargest : (max (replay options rows).metrics.peakEquity value - value).toInt =
      max (replay options rows).metrics.peakEquity.toInt value.toInt - value.toInt := by
    rw [int64_toInt_sub_of_inRange, int64_toInt_max]
    rw [int64_toInt_max]
    refine hfit _ ?_
    rw [hgrown, List.map_append]
    exact mem_falls_concat.mpr (.inr ⟨_, htop.1, rfl⟩)
  refine ⟨hinitial.trans h.initial, ?_, ?_, ?_⟩
  · rw [hgrown, List.getLast?_concat]
  · rw [hgrown, List.map_append, hpeak, int64_toInt_max]
    exact htop
  · rw [hgrown, List.map_append, hdrawdown, int64_toInt_max, hlargest]
    exact isGreatest_falls_concat h.drawdown h.peak

theorem metered_replay (options : Options) (rows : List MarketEvent)
    (hfit : FallsFit options rows) : Metered options rows (replay options rows) := by
  induction rows using List.reverseRecOn with
  | nil => exact metered_nil
  | append_singleton rows row ih =>
    by_cases hheard : Heard options (replay options rows) row
    · exact (ih hfit.of_concat).heard hfit hheard
    · exact (ih hfit.of_concat).skipped hheard

end Runs

/-! ### The sums over the fills -/

def gain (fill : PaperFill) : ℤ := max fill.realizedPnlUnits.toInt 0

def loss (fill : PaperFill) : ℤ := max (-fill.realizedPnlUnits.toInt) 0

theorem gain_sub_loss (fill : PaperFill) : gain fill - loss fill = fill.realizedPnlUnits.toInt :=
  max_zero_sub_max_neg_zero_eq_self _

/-- The sum of the gains fits in a word, and that of the losses. -/
def GrossFits (fills : List PaperFill) : Prop :=
  InRange64 (fills.map gain).sum ∧ InRange64 (fills.map loss).sum

instance (fills : List PaperFill) : Decidable (GrossFits fills) :=
  inferInstanceAs (Decidable (_ ∧ _))

/-- A wrapping sum is the exact one, read into a word. -/
theorem foldl_eq_ofInt {α : Type} {f : Int64 → α → Int64} {size : α → ℤ}
    (h : ∀ sum a, f sum a = sum + Int64.ofInt (size a)) (as : List α) (sum : Int64) :
    as.foldl f sum = sum + Int64.ofInt (as.map size).sum := by
  induction as generalizing sum with
  | nil => simp
  | cons a as ih =>
    rw [List.foldl_cons, ih, h, List.map_cons, List.sum_cons, Int64.ofInt_add, Int64.add_assoc]

section Gross
variable (fills : List PaperFill)

theorem grossProfit_eq :
    fills.foldl (fun sum fill =>
      if 0 < fill.realizedPnlUnits then sum + fill.realizedPnlUnits else sum) 0 =
        Int64.ofInt (fills.map gain).sum := by
  rw [@foldl_eq_ofInt _ _ gain, Int64.zero_add]
  intro sum fill
  unfold gain
  split_ifs with h
  · rw [max_eq_left ((int64_pos_iff _).mp h).le, Int64.ofInt_toInt]
  · rw [max_eq_right (not_lt.mp (mt (int64_pos_iff _).mpr h))]
    exact (Int64.add_zero sum).symm

theorem grossLoss_eq :
    fills.foldl (fun sum fill =>
      if fill.realizedPnlUnits < 0 then sum - fill.realizedPnlUnits else sum) 0 =
        Int64.ofInt (fills.map loss).sum := by
  rw [@foldl_eq_ofInt _ _ loss, Int64.zero_add]
  intro sum fill
  unfold loss
  have hneg : fill.realizedPnlUnits < 0 ↔ fill.realizedPnlUnits.toInt < 0 := Int64.lt_iff_toInt_lt
  split_ifs with h
  · rw [max_eq_left (neg_nonneg.mpr (hneg.mp h).le), Int64.ofInt_neg, Int64.ofInt_toInt,
      Int64.sub_eq_add_neg]
  · rw [max_eq_right (neg_nonpos.mpr (not_lt.mp (mt hneg.mpr h)))]
    exact (Int64.add_zero sum).symm

end Gross

/-- The figures of a replay of `rows`, by what they stand for. -/
structure Measured (options : Options) (rows : List MarketEvent) (metrics : Metrics) : Prop where
  initial : (equities options rows).head? = some metrics.initialEquity
  final : (equities options rows).getLast? = some metrics.finalEquity
  drawdown : IsGreatest (Falls ((equities options rows).map Int64.toInt))
    metrics.maxDrawdown.toInt
  result : metrics.finalEquity.toInt - metrics.initialEquity.toInt =
    metrics.realizedPnl.toInt + metrics.unrealizedPnl.toInt - metrics.fees.toInt
  gross : metrics.grossProfit.toInt - metrics.grossLoss.toInt = metrics.realizedPnl.toInt

theorem initial_equity (options : Options) : (initial options).equity = 10000000 := by
  show (PerpetualLedger.new
    { initialCashUnits := 10000000, accountScale := 2, priceScale := 2,
      quantityScale := 3 }).state.equityUnits = 10000000
  decide

theorem equity_sub_initial {options : Options} {state : State}
    (h : Consistent (exchangeConfig options) state.exchange) :
    state.equity.toInt - (initial options).equity.toInt =
      state.exchange.ledger.state.realizedPnlUnits.toInt +
        state.exchange.ledger.state.unrealizedPnlUnits.toInt -
        state.exchange.ledger.state.totalFeeUnits.toInt := by
  have hbalanced := h.booked.sound.balanced
  rw [PerpetualLedger.Balanced, h.booked.sound.config] at hbalanced
  have hidentities := accounting_of_balanced hbalanced
  have hcash : (exchangeConfig options).ledger.initialCashUnits = 10000000 := rfl
  rw [initial_equity, State.equity, hidentities.equity, hidentities.cash, hcash]
  ring

theorem gross_of_fits {config : PaperExchangeConfig} {exchange : PaperExchange}
    (h : Consistent config exchange) (hfits : GrossFits exchange.fills) :
    (Int64.ofInt (exchange.fills.map gain).sum).toInt -
        (Int64.ofInt (exchange.fills.map loss).sum).toInt =
      exchange.ledger.state.realizedPnlUnits.toInt := by
  rw [int64_toInt_ofInt hfits.1, int64_toInt_ofInt hfits.2, ← sum_map_sub, h.booked.realizedPnl]
  exact congrArg List.sum (List.map_congr_left fun fill _ => gain_sub_loss fill)

theorem report_measured (options : Options) (rows : List MarketEvent)
    (hfalls : FallsFit options rows) (hgross : GrossFits (replay options rows).exchange.fills) :
    Measured options rows (report (replay options rows)) := by
  have hmetered := metered_replay options rows hfalls
  have hconsistent := (traced_replay options rows).consistent
  unfold report
  dsimp only
  rw [grossProfit_eq, grossLoss_eq]
  refine ⟨congrArg some hmetered.initial.symm, hmetered.last, hmetered.drawdown, ?_,
    gross_of_fits hconsistent hgross⟩
  rw [hmetered.initial]
  exact equity_sub_initial hconsistent

/-- A long position bought at the second row loses at the third; the last row comes too late. -/
theorem report_measured_example :
    let row : MarketEvent := { sequence := 1, exchangeTimeNs := 1000, receiveTimeNs := 1001000
                               bestBidUnits := 10000, bestAskUnits := 10001, bidQuantityUnits := 9 }
    Measured { decisionEvery := 1, endNs := 3000 }
      [row, { row with sequence := 2, exchangeTimeNs := 2000, receiveTimeNs := 1002000 },
       { row with sequence := 3, exchangeTimeNs := 3000, receiveTimeNs := 1003000
                  bestBidUnits := 9000, bestAskUnits := 9001 },
       { row with sequence := 4, exchangeTimeNs := 4000, receiveTimeNs := 1004000 }]
      (report (replay { decisionEvery := 1, endNs := 3000 }
        [row, { row with sequence := 2, exchangeTimeNs := 2000, receiveTimeNs := 1002000 },
         { row with sequence := 3, exchangeTimeNs := 3000, receiveTimeNs := 1003000
                    bestBidUnits := 9000, bestAskUnits := 9001 },
         { row with sequence := 4, exchangeTimeNs := 4000, receiveTimeNs := 1004000 }])) := by
  intro row
  refine report_measured _ _ ?_ (by decide +kernel)
  have hall : ∀ x ∈ (equities { decisionEvery := 1, endNs := 3000 }
      [row, { row with sequence := 2, exchangeTimeNs := 2000, receiveTimeNs := 1002000 },
       { row with sequence := 3, exchangeTimeNs := 3000, receiveTimeNs := 1003000
                  bestBidUnits := 9000, bestAskUnits := 9001 },
       { row with sequence := 4, exchangeTimeNs := 4000
                  receiveTimeNs := 1004000 }]).map Int64.toInt, 0 ≤ x ∧ x ≤ 10000000 := by
    decide +kernel
  rintro _ ⟨i, j, x, y, _, hx, hy, rfl⟩
  have hx' := hall x (List.mem_of_getElem? hx)
  have hy' := hall y (List.mem_of_getElem? hy)
  constructor <;> omega

end Astra.Replay
