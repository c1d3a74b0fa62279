import AstraTrader.Exchange.Journal
import AstraTrader.Replay.Metrics
import AstraTrader.Research.CppReport

/-! The two files of one run against each other: the lines of the detail, posted to a fresh ledger,
bring back the figures of the metrics that no mark enters, and a mark brings back the rest. -/

namespace Astra.DetailAudit
open Process Text FixedWidth Replay PerpetualLedger PaperExchange CppReport

/-- A fill as the ledger is given it. -/
structure Posting where
  signedQuantityUnits : Int64
  priceUnits : Int64
  feeUnits : Int64

def sideOf : Node → Option Side
  | .string text =>
    if text = "buy".toList then some .buy else if text = "sell".toList then some .sell else none
  | _ => none

def unitsOf : Node → Option Int64
  | .integer value => some (Int64.ofInt value)
  | _ => none

def postingOf (document : Node) : Option Posting := do
  let side ← (document.get "side").bind sideOf
  let quantityUnits ← (document.get "quantity_units").bind unitsOf
  let priceUnits ← (document.get "price_units").bind unitsOf
  let feeUnits ← (document.get "fee_units").bind unitsOf
  return { signedQuantityUnits := signedQuantity side quantityUnits, priceUnits, feeUnits }

/-- What an auditor has gathered from the lines so far. -/
structure Audit where
  ledger : PerpetualLedger
  decisions : ℕ := 0
  fills : ℕ := 0
  grossProfit : ℤ := 0
  grossLoss : ℤ := 0

namespace Audit

def post (audit : Audit) (posting : Posting) : Option Audit :=
  let (ledger, mutation) := audit.ledger.applyFill posting.signedQuantityUnits
    posting.priceUnits posting.feeUnits
  if mutation.succeeded then
    some
      { audit with
        ledger
        fills := audit.fills + 1
        grossProfit := audit.grossProfit + max mutation.realizedPnlUnits.toInt 0
        grossLoss := audit.grossLoss + max (-mutation.realizedPnlUnits.toInt) 0 }
  else none

def read (audit : Audit) (document : Node) : Option Audit :=
  match document.get "event" with
  | some (.string event) =>
    if event = "decision".toList then some { audit with decisions := audit.decisions + 1 }
    else if event = "fill".toList then (postingOf document).bind audit.post
    else none
  | _ => none

/-- What the lines of a replay add. -/
def grown (audit : Audit) (lines : List DetailLine) : Audit :=
  let fills := lines.filterMap DetailLine.fill?
  { ledger := fills.foldl recoverStep audit.ledger
    decisions := audit.decisions + lines.countP DetailLine.isDecision
    fills := audit.fills + fills.length
    grossProfit := audit.grossProfit + (fills.map gain).sum
    grossLoss := audit.grossLoss + (fills.map loss).sum }

end Audit

/-- The audit of a detail file from nothing but its text. -/
def auditDetail (config : LedgerConfig) (text : Line) : Option Audit :=
  (splitLines (uniformNewlines text)).foldlM
    (fun audit line => (loads line).bind audit.read) { ledger := .new config }

section Lines
variable {audit : Audit} {line : DetailLine} {lines : List DetailLine} {fill : PaperFill}

theorem loads_lineText (h : Tidy line) : loads (lineText line) = some (lineNode line) := by
  cases line with
  | decision made proposedAction gateHold =>
    rw [loads_decision, if_pos h.1]
    rfl
  | fill trade => exact loads_fill trade

theorem postingOf_fillNode (fill : PaperFill) : postingOf (fillNode fill) =
    some ⟨signedQuantity fill.side fill.quantityUnits, fill.priceUnits, fill.feeUnits⟩ := by
  have hside : sideOf (textNode (sideText fill.side)) = some fill.side := by
    cases fill.side <;> rfl
  have hunits : ∀ value : Int64, unitsOf (.integer value.toInt) = some value := fun value =>
    congrArg some (Int64.ofInt_toInt value)
  have hgets : (fillNode fill).get "side" = some (textNode (sideText fill.side)) ∧
      (fillNode fill).get "quantity_units" = some (.integer fill.quantityUnits.toInt) ∧
      (fillNode fill).get "price_units" = some (.integer fill.priceUnits.toInt) ∧
      (fillNode fill).get "fee_units" = some (.integer fill.feeUnits.toInt) := ⟨rfl, rfl, rfl, rfl⟩
  rw [postingOf, hgets.1, hgets.2.1, hgets.2.2.1, hgets.2.2.2]
  simp only [Option.bind_some, hside, hunits, Option.bind_eq_bind]
  rfl

theorem read_fillNode (h : Accounts audit.ledger fill) :
    audit.read (fillNode fill) = some (audit.grown [.fill fill]) := by
  have hevent : (fillNode fill).get "event" = some (.string "fill".toList) := rfl
  have hother : ¬ "fill".toList = "decision".toList := by decide
  have hmutation : (audit.ledger.applyFill (signedQuantity fill.side fill.quantityUnits)
      fill.priceUnits fill.feeUnits).2 = _ := h
  rw [Audit.read, hevent]
  dsimp only
  rw [if_neg hother, if_pos rfl, postingOf_fillNode, Option.bind_some, Audit.post]
  dsimp only
  rw [hmutation]
  simp [LedgerMutation.succeeded, Audit.grown, DetailLine.fill?, DetailLine.isDecision, gain, loss,
    recoverStep, applyRecord]

theorem read_decision (audit : Audit) (made : ModelDecision) (proposedAction : ModelAction)
    (gateHold : Bool) : audit.read (lineNode (.decision made proposedAction gateHold)) =
      some (audit.grown [.decision made proposedAction gateHold]) := by
  have hevent : (lineNode (.decision made proposedAction gateHold)).get "event" =
    some (.string "decision".toList) := rfl
  have hnone : [DetailLine.decision made proposedAction gateHold].filterMap DetailLine.fill? = [] :=
    rfl
  rw [Audit.read, hevent]
  simp [Audit.grown, hnone, DetailLine.isDecision]

theorem grown_cons (audit : Audit) (line : DetailLine) (lines : List DetailLine) :
    audit.grown (line :: lines) = (audit.grown [line]).grown lines := by
  have happend := @List.filterMap_append _ _ [line] lines DetailLine.fill?
  have hcount := @List.countP_append _ DetailLine.isDecision [line] lines
  rw [List.singleton_append] at happend hcount
  simp only [Audit.grown, happend, hcount, List.foldl_append, List.length_append, List.map_append,
    List.sum_append, Nat.add_assoc, Int.add_assoc]

/-- The induction over the lines, as long as the ledger takes their fills. -/
theorem foldlM_read (htidy : ∀ line ∈ lines, Tidy line)
    (h : AllSteps recoverStep Accounts audit.ledger (lines.filterMap DetailLine.fill?)) :
    (lines.map lineText).foldlM (fun audit line => (loads line).bind audit.read) audit =
      some (audit.grown lines) := by
  induction lines generalizing audit with
  | nil => simp [Audit.grown]
  | cons line lines ih =>
    have hmore := fun other hother => htidy other (List.mem_cons_of_mem _ hother)
    rw [List.map_cons, List.foldlM_cons, loads_lineText (htidy line (List.mem_cons_self ..)),
      Option.bind_some, grown_cons]
    cases line with
    | decision made proposedAction gateHold =>
      rw [read_decision]
      exact ih hmore h
    | fill trade =>
      have hsteps : AllSteps recoverStep Accounts audit.ledger
        (trade :: lines.filterMap DetailLine.fill?) := h
      have hread : audit.read (lineNode (.fill trade)) = _ := read_fillNode hsteps.1
      rw [hread]
      exact ih hmore hsteps.2

theorem auditDetail_detailText (htidy : ∀ line ∈ lines, Tidy line) {config : LedgerConfig}
    (h : AllSteps recoverStep Accounts (.new config) (lines.filterMap DetailLine.fill?)) :
    auditDetail config (detailText lines) =
      some (Audit.grown { ledger := .new config } lines) := by
  rw [auditDetail, splitLines_detailText htidy]
  exact foldlM_read htidy h

end Lines

/-! ### The names of the models -/

section Names
variable {tape next : DecisionTape}

def Named (tape : DecisionTape) : Prop := ∀ entry ∈ tape.decisions, entry.2.model = "decision-tape"

theorem named_loadLines {rowNumber : ℕ} {texts : List Line} (hnamed : Named tape)
    (h : tape.loadLines rowNumber texts = .ok next) : Named next := by
  induction texts generalizing tape rowNumber with
  | nil =>
    obtain rfl := Except.ok.inj h
    exact hnamed
  | cons line texts ih =>
    rw [DecisionTape.loadLines] at h
    cases hline : tape.loadLine (rowNumber + 1) line with
    | error error =>
      rw [hline] at h
      exact absurd h (by simp)
    | ok loaded =>
      rw [hline] at h
      refine ih ?_ h
      unfold DecisionTape.loadLine at hline
      split_ifs at hline
      · obtain rfl := Except.ok.inj hline
        exact hnamed
      · unfold DecisionTape.loadFields at hline
        split at hline
        · split at hline
          · cases hline
          · split at hline
            · cases hline
            · obtain rfl := Except.ok.inj hline
              exact List.forall_mem_cons.mpr ⟨rfl, hnamed⟩
        · cases hline

theorem named_load {path : String} {file : Option Line}
    (h : DecisionTape.load path file = .ok tape) : Named tape := by
  unfold DecisionTape.load at h
  split at h
  · cases h
  · split at h
    · cases h
    · rename_i loaded hloaded
      split_ifs at h
      obtain rfl := Except.ok.inj h
      exact named_loadLines (fun entry hentry => absurd hentry List.not_mem_nil) hloaded

theorem named_decide (h : Named tape) (sequence : UInt64) :
    (tape.decide sequence).model = "decision-tape" := by
  unfold DecisionTape.decide
  cases hfind : tape.find sequence with
  | none => rfl
  | some decision =>
    obtain ⟨before, after, hsplit, _⟩ := List.lookup_eq_some_iff.mp hfind
    exact h (sequence, decision) (hsplit ▸ List.mem_append_right _ (List.mem_cons_self ..))

/-- Only a server can give a name that does not stand on one line. -/
theorem names_of_loadModel {files : Files} {reply : ℕ → ModelState → LayaReply}
    {arguments : Arguments} {model : Model} (hload : loadModel files reply arguments = .ok model)
    (hnames : arguments.model = "laya".toList → NamesModel reply) (count : ℕ)
    (modelState : ModelState) :
    Printable (model.decide count modelState).model.toList ∧
      Unbroken (model.decide count modelState).model.toList := by
  unfold loadModel at hload
  split_ifs at hload with hbaseline hhold hlaya
  · obtain rfl := Except.ok.inj hload
    have hname : (Model.baseline.decide count modelState).model = "flow-baseline" :=
      baselineDecision_model modelState
    rw [hname]
    exact plain_names "flow-baseline" (by simp)
  · obtain rfl := Except.ok.inj hload
    exact plain_names "hold" (by simp)
  · obtain rfl := Except.ok.inj hload
    exact hnames hlaya count modelState
  · obtain ⟨tape, htape, rfl⟩ := map_eq_ok_iff.mp hload
    have hname : ((Model.tape tape).decide count modelState).model = "decision-tape" :=
      named_decide (named_load htape) modelState.sequence
    rw [hname]
    exact plain_names "decision-tape" (by simp)

end Names

/-! ### The two files -/

/-- The metrics give the figures of the audit, and the rest at some mark of its ledger. -/
structure Reconciles (document : Node) (audit : Audit) : Prop where
  decisions : document.get "decisions" = some (.integer audit.decisions)
  fills : document.get "fills" = some (.integer audit.fills)
  position : document.get "position_units" =
    some (.integer audit.ledger.state.positionUnits.toInt)
  realized : document.get "realized_pnl_units" =
    some (.integer audit.ledger.state.realizedPnlUnits.toInt)
  fees : document.get "fees_units" = some (.integer audit.ledger.state.totalFeeUnits.toInt)
  gross : document.get "gross_profit_units" = some (.integer audit.grossProfit) ∧
    document.get "gross_loss_units" = some (.integer audit.grossLoss)
  ratio : document.get "profit_factor" =
    some (.string (profitFactor audit.grossProfit audit.grossLoss))
  marked : ∃ ledger : PerpetualLedger,
    (ledger = audit.ledger ∨ ∃ priceUnits, audit.ledger.markToMarket priceUnits = (ledger, .ok)) ∧
      document.get "final_equity_units" = some (.integer ledger.state.equityUnits.toInt) ∧
      document.get "unrealized_pnl_units" = some (.integer ledger.state.unrealizedPnlUnits.toInt)

section Run
variable {files : Files} {reply : ℕ → ModelState → LayaReply} {words : List Line}
  {options : { options : Arguments // options.Checked }} {model : Model}
  {rows : List MarketEvent}

theorem recovered_replay (options : Options) (rows : List MarketEvent) :
    Recovered (exchangeConfig options) (replay options rows).exchange := by
  obtain ⟨calls, hcalls⟩ := replay_calls options [] rows
  rw [List.nil_append] at hcalls
  rw [hcalls]
  exact (recovered_new (exchangeConfig options)).foldl calls

theorem grown_detailedReplay (options : Options) (rows : List MarketEvent) :
    Audit.grown { ledger := .new (exchangeConfig options).ledger }
        (detailedReplay options rows).lines =
      { ledger := recover (exchangeConfig options).ledger (replay options rows).exchange.fills
        decisions := (report (replay options rows)).decisions
        fills := (report (replay options rows)).fills
        grossProfit := ((replay options rows).exchange.fills.map gain).sum
        grossLoss := ((replay options rows).exchange.fills.map loss).sum } := by
  have hlogged := logged_detailedReplay options rows
  rw [detailedReplay_state] at hlogged
  have hdecisions : (detailedReplay options rows).lines.countP DetailLine.isDecision =
    (report (replay options rows)).decisions := hlogged.decisions
  have hfills : (report (replay options rows)).fills =
    (replay options rows).exchange.fills.length := rfl
  simp only [Audit.grown, hlogged.fills, hdecisions, hfills, Nat.zero_add, Int.zero_add]
  rfl

theorem audit_reconciles {arguments : Arguments} {options : Options}
    (hgross : GrossFits (replay options rows).exchange.fills) :
    Reconciles (reportNode arguments (replay options rows))
      (Audit.grown { ledger := .new (exchangeConfig options).ledger }
        (detailedReplay options rows).lines) := by
  have hrecovered := recovered_replay options rows
  have hbooks : ∀ figure : LedgerState → Int64,
      (∀ state : LedgerState, figure state.unmarked = figure state) →
      some (Node.integer (figure (replay options rows).exchange.ledger.state).toInt) =
        some (.integer (figure (recover (exchangeConfig options).ledger
          (replay options rows).exchange.fills).state).toInt) := by
    intro figure hkept
    rw [← hkept, ← hrecovered.books.state, hkept]
  have hprofit : (report (replay options rows)).grossProfit.toInt =
      ((replay options rows).exchange.fills.map gain).sum :=
    (congrArg Int64.toInt (grossProfit_eq _)).trans (int64_toInt_ofInt hgross.1)
  have hloss : (report (replay options rows)).grossLoss.toInt =
      ((replay options rows).exchange.fills.map loss).sum :=
    (congrArg Int64.toInt (grossLoss_eq _)).trans (int64_toInt_ofInt hgross.2)
  have hgains : 0 ≤ ((replay options rows).exchange.fills.map gain).sum :=
    List.sum_nonneg (List.forall_mem_map.mpr fun fill _ => le_max_right _ _)
  rw [grown_detailedReplay, ← hprofit, ← hloss]
  rw [← hprofit] at hgains
  refine ⟨rfl, rfl, ?_, ?_, ?_, ⟨rfl, rfl⟩, ?_, ?_⟩
  · exact hbooks LedgerState.positionUnits fun _ => rfl
  · exact hbooks LedgerState.realizedPnlUnits fun _ => rfl
  · exact hbooks LedgerState.totalFeeUnits fun _ => rfl
  · rw [← fixedRatio_eq_profitFactor hgains]
    rfl
  · rcases hrecovered.marked with ⟨hfresh, hnone⟩ | hmarked
    · refine ⟨(replay options rows).exchange.ledger, .inl ?_, rfl, rfl⟩
      rw [hnone, hfresh]
      rfl
    · exact ⟨(replay options rows).exchange.ledger, .inr ⟨_, hmarked⟩, rfl, rfl⟩

/-- What an auditor finds in the detail is what the metrics say: the two files of a run agree. -/
theorem main_reconciles (h : Ready files reply words options model rows)
    (hdetail : options.val.detail ≠ []) (hinput : Printable options.val.input)
    (hnames : options.val.model = "laya".toList → NamesModel reply)
    (hgross : GrossFits (replay (replayOptions options model) rows).exchange.fills) :
    ∃ metrics document detail audit,
      (main files reply words).output = some metrics ∧ loads metrics = some document ∧
      (main files reply words).detail = some detail ∧
      auditDetail (exchangeConfig (replayOptions options model)).ledger detail = some audit ∧
      Reconciles document audit := by
  have htidy : ∀ line ∈ (detailedReplay (replayOptions options model) rows).lines, Tidy line :=
    tidy_of_names (names_of_loadModel h.model hnames) rows
  have hlogged := logged_detailedReplay (replayOptions options model) rows
  rw [detailedReplay_state] at hlogged
  rw [h.main_eq]
  refine ⟨_, _, _, _, rfl, (loads_metricsJson options.property.model _ _).trans (if_pos hinput),
    if_neg hdetail, auditDetail_detailText htidy ?_, audit_reconciles hgross⟩
  rw [hlogged.fills]
  exact (recovered_replay _ rows).accounts

/-- The baseline goes long and turns short at a loss. -/
theorem main_reconciles_turn :
    let items : List Minute :=
      [{ timestampMs := 1735689600000, closePrice := 60000, buyNotional := 3, sellNotional := 1 },
       { timestampMs := 1735689660000, closePrice := 60010, buyNotional := 1, sellNotional := 3 },
       { timestampMs := 1735689720000, closePrice := 60020, buyNotional := 1, sellNotional := 3 }]
    let files : Files :=
      { content := fun name => if name = "in.csv".toList then some (writeStream items) else none
        writable := fun _ => true }
    let words := command (oneEntries "in.csv".toList "raw".toList .developmentTrain
      (ScriptModel.name .baseline) .stress (1 : ℕ) true)
    ∃ metrics document detail audit,
      (main files (fun _ _ => .failed 0 "") words).output = some metrics ∧
      loads metrics = some document ∧
      (main files (fun _ _ => .failed 0 "") words).detail = some detail ∧
      auditDetail (exchangeConfig {}).ledger detail = some audit ∧ Reconciles document audit := by
  intro items files words
  have hitems : ∀ (k : ℕ) (other : Minute), items[k]? = some other →
      other.Emittable 1000000 (1 + k) := by
    intro k other hother
    match k with
    | 0 | 1 | 2 =>
      obtain rfl := Option.some.inj hother
      decide +kernel
    | k + 3 => exact absurd hother (by simp [items])
  have hevery : 1 < 2 ^ 64 := by decide
  have hchecked : (oneArguments "in.csv".toList "raw".toList .developmentTrain .baseline .stress 1
    true).Checked := oneArguments_checked (by decide) Nat.one_pos hevery
  have hready : Ready files (fun _ _ => .failed 0 "") words ⟨_, hchecked⟩ .baseline
      (streamEvents 1000000 1 items) :=
    ⟨(leads_one hevery).parseOptions hchecked, rfl, .inr rfl, loadModel_one, _, rfl,
      readStream_writeStream (by decide : 0 ≤ (1000000 : Int64).toInt) hitems⟩
  have hinput : Printable "in.csv".toList := by decide
  have hbaseline : ¬ "baseline".toList = "laya".toList := by decide
  have hgross : GrossFits (replay (oneOptions (fun _ _ => .failed 0 "") .developmentTrain .baseline
      .stress Nat.one_pos (by decide)) (streamEvents 1000000 1 items)).exchange.fills := by
    decide +kernel
  exact main_reconciles hready (rawPath_ne_nil ".jsonl") hinput (fun h => absurd h hbaseline) hgross

end Run
end Astra.DetailAudit
