import AstraTrader.Replay.Output

/-! What a reader of JSON makes of the texts of `astra_replay`. -/

namespace Astra.Replay
open Text FixedWidth

def textNode (text : String) : Node := .string text.toList

def fillNode (fill : PaperFill) : Node := .object
  [("event".toList, textNode "fill"),
    ("fill_id".toList, .integer fill.fillId),
    ("order_id".toList, .integer fill.orderId),
    ("sequence".toList, .integer fill.marketSequence.toNat),
    ("side".toList, textNode (sideText fill.side)),
    ("quantity_units".toList, .integer fill.quantityUnits.toInt),
    ("price_units".toList, .integer fill.priceUnits.toInt),
    ("fee_units".toList, .integer fill.feeUnits.toInt),
    ("maker".toList, .bool fill.maker)]

def decisionNode (decision : ModelDecision) (proposedAction : ModelAction) (gateHold : Bool) :
    Node := .object
  [("event".toList, textNode "decision"),
    ("sequence".toList, .integer decision.stateSequence.toNat),
    ("action".toList, textNode (LayaGateway.actionText decision.action)),
    ("proposed_action".toList, textNode (LayaGateway.actionText proposedAction)),
    ("gate_hold".toList, .bool gateHold),
    ("long_probability_ppm".toList, .integer decision.longProbabilityPpm.toNat),
    ("short_probability_ppm".toList, .integer decision.shortProbabilityPpm.toNat),
    ("hold_probability_ppm".toList, .integer decision.holdProbabilityPpm.toNat),
    ("latency_ns".toList, .integer decision.latencyNs.toInt),
    ("model".toList, textNode decision.model),
    ("succeeded".toList, .bool decision.succeeded)]

def lineNode : DetailLine → Node
  | .decision made proposedAction gateHold => decisionNode made proposedAction gateHold
  | .fill fill => fillNode fill

/-- The profit factor as a decimal text. -/
def profitFactor (grossProfit grossLoss : ℤ) : Line :=
  if grossLoss ≤ 0 then (if 0 < grossProfit then "inf" else "0.000").toList
  else printInt (grossProfit / grossLoss) ++ '.' ::
    padded 3 (grossProfit * 1000 / grossLoss % 1000).toNat

theorem fixedRatio_eq_profitFactor {numerator denominator : Int64} (h : 0 ≤ numerator.toInt) :
    fixedRatio numerator denominator = profitFactor numerator.toInt denominator.toInt := by
  have hzero : (0 : Int64).toInt = 0 := rfl
  unfold profitFactor
  by_cases hloss : denominator.toInt ≤ 0
  · unfold fixedRatio
    rw [if_pos hloss, if_pos (Int64.le_iff_toInt_le.mpr hloss)]
    simp only [Int64.lt_iff_toInt_lt, hzero]
  · rw [if_neg hloss]
    exact fixedRatio_eq h (not_le.mp hloss)

def metricsNode (options : Arguments) (metrics : Metrics) (returnPpm : ℤ) (profitFactor : Line)
    (positionUnits : Int64) : Node := .object
  [("schema".toList, textNode "astra.replay.metrics.v1"),
    ("model".toList, .string options.model),
    ("input".toList, .string options.input),
    ("decision_every".toList, .integer options.decisionEvery.toNat),
    ("taker_fee_ppm".toList, .integer options.takerFeePpm.toNat),
    ("market_slippage_ppm".toList, .integer options.marketSlippagePpm.toNat),
    ("start_ns".toList, .integer options.startNs.toInt),
    ("end_ns".toList, .integer options.endNs.toInt),
    ("events".toList, .integer metrics.events),
    ("decisions".toList, .integer metrics.decisions),
    ("signals".toList, .integer metrics.signals),
    ("accepted_orders".toList, .integer metrics.acceptedOrders),
    ("rejected_orders".toList, .integer metrics.rejectedOrders),
    ("fills".toList, .integer metrics.fills),
    ("ignored_events".toList, .integer metrics.ignoredEvents),
    ("initial_equity_units".toList, .integer metrics.initialEquity.toInt),
    ("final_equity_units".toList, .integer metrics.finalEquity.toInt),
    ("pnl_units".toList, .integer (metrics.finalEquity - metrics.initialEquity).toInt),
    ("return_ppm".toList, .integer returnPpm),
    ("max_drawdown_units".toList, .integer metrics.maxDrawdown.toInt),
    ("realized_pnl_units".toList, .integer metrics.realizedPnl.toInt),
    ("unrealized_pnl_units".toList, .integer metrics.unrealizedPnl.toInt),
    ("fees_units".toList, .integer metrics.fees.toInt),
    ("gross_profit_units".toList, .integer metrics.grossProfit.toInt),
    ("gross_loss_units".toList, .integer metrics.grossLoss.toInt),
    ("profit_factor".toList, .string profitFactor),
    ("position_units".toList, .integer positionUnits.toInt)]

section Lines
variable {node : Node} {field : Field}

theorem reads_integer {key : String} {value : ℤ} :
    ValueReads (key, .integer value) (key.toList, .integer value) := ⟨rfl, .integer value⟩

theorem reads_bool {key : String} {value : Bool} :
    ValueReads (key, .bool value) (key.toList, .bool value) := ⟨rfl, .bool value⟩

theorem reads_text {key : String} {text : Line} (h : Unescaped text) :
    ValueReads (key, .raw text) (key.toList, .string text) := ⟨rfl, Field.reads_unescaped h⟩

theorem reads_escaped {key : String} {value : Line} (h : Printable value) :
    ValueReads (key, .raw (jsonEscape value)) (key.toList, .string value) :=
  ⟨rfl, reads_jsonEscape h⟩

theorem plainKeys_fillMembers (fill : PaperFill) : PlainKeys (fillMembers fill) := by
  simp only [PlainKeys, fillMembers, List.forall_mem_cons]
  decide

theorem plainKeys_decisionMembers (made : ModelDecision) (proposedAction : ModelAction)
    (gateHold : Bool) : PlainKeys (decisionMembers made proposedAction gateHold) := by
  have hkeys : PlainKeys (decisionMembers {} .hold false) := by decide
  exact hkeys.of_map_eq rfl

theorem plainKeys_metricsMembers (options : Arguments) (metrics : Metrics)
    (positionUnits : Int64) : PlainKeys (metricsMembers options metrics positionUnits) := by
  simp only [PlainKeys, metricsMembers, List.forall_mem_singleton, List.forall_mem_cons]
  and_intros <;> decide

theorem unescaped_sideText (side : Side) : Unescaped (sideText side).toList := by
  cases side <;> decide

theorem loads_fill (fill : PaperFill) : loads (lineText (.fill fill)) = some (fillNode fill) := by
  have hread : loads (writeObject (fillMembers fill) ++ []) = some (fillNode fill) := by
    refine loads_writeObject ((plainKeys_fillMembers fill).reads ?_) rfl
    exact .cons (reads_text (by decide)) <| .cons reads_integer <| .cons reads_integer <|
      .cons reads_integer <| .cons (reads_text (unescaped_sideText _)) <| .cons reads_integer <|
      .cons reads_integer <| .cons reads_integer <| .cons reads_bool .nil
  rwa [List.append_nil] at hread

theorem reads_decisionMembers (made : ModelDecision) (proposedAction : ModelAction)
    (gateHold : Bool) : List.Forall₂ EntryReads
      ((decisionMembers made proposedAction gateHold).take 9)
      [("event".toList, textNode "decision"),
        ("sequence".toList, .integer made.stateSequence.toNat),
        ("action".toList, textNode (LayaGateway.actionText made.action)),
        ("proposed_action".toList, textNode (LayaGateway.actionText proposedAction)),
        ("gate_hold".toList, .bool gateHold),
        ("long_probability_ppm".toList, .integer made.longProbabilityPpm.toNat),
        ("short_probability_ppm".toList, .integer made.shortProbabilityPpm.toNat),
        ("hold_probability_ppm".toList, .integer made.holdProbabilityPpm.toNat),
        ("latency_ns".toList, .integer made.latencyNs.toInt)] :=
  PlainKeys.reads
    (fun entry hentry => plainKeys_decisionMembers made proposedAction gateHold entry
      (List.mem_of_mem_take hentry)) <|
    .cons (reads_text (by decide)) <| .cons reads_integer <|
    .cons (reads_text (unescaped_actionText _)) <| .cons (reads_text (unescaped_actionText _)) <|
    .cons reads_bool <| .cons reads_integer <| .cons reads_integer <| .cons reads_integer <|
    .cons reads_integer .nil

theorem loads_decision (made : ModelDecision) (proposedAction : ModelAction) (gateHold : Bool) :
    loads (lineText (.decision made proposedAction gateHold)) =
      if Printable made.model.toList then some (decisionNode made proposedAction gateHold)
      else none := by
  have hbefore := reads_decisionMembers made proposedAction gateHold
  split_ifs with hmodel
  · have hafter : List.Forall₂ EntryReads ((decisionMembers made proposedAction gateHold).drop 9)
        [("model".toList, textNode made.model), ("succeeded".toList, .bool made.succeeded)] :=
      PlainKeys.reads (fun entry hentry => plainKeys_decisionMembers made proposedAction gateHold
        entry (List.mem_of_mem_drop hentry)) <|
        .cons (reads_escaped hmodel) <| .cons reads_bool .nil
    have hall : List.Forall₂ EntryReads (decisionMembers made proposedAction gateHold) _ :=
      List.rel_append hbefore hafter
    have hread : loads (writeObject (decisionMembers made proposedAction gateHold) ++ []) =
      some _ := loads_writeObject hall rfl
    rwa [List.append_nil] at hread
  · have hkey : Unescaped "model".toList := by decide
    have hread : loads (writeObject ((decisionMembers made proposedAction gateHold).take 9 ++
        ("model", .raw (jsonEscape made.model.toList)) :: [("succeeded", .bool made.succeeded)]) ++
          []) = none := loads_unreadable hbefore hkey (scanString_jsonEscape_eq_none hmodel) []
    rwa [List.append_nil] at hread

theorem reads_returnPpm (metrics : Metrics) :
    (Field.literal (wideText (returnPpm metrics))).Reads (.integer (returnPpm metrics).toInt) := by
  refine .literal (wideText_eq fun he => ?_)
  have hbound := (toInt_returnPpm metrics).2
  rw [he] at hbound
  exact absurd hbound (by decide)

theorem loads_metricsJson {options : Arguments} (hmodel : options.model ∈ modelNames)
    (metrics : Metrics) (positionUnits : Int64) :
    loads (metricsJson options metrics positionUnits) =
      if Printable options.input then
        some (metricsNode options metrics (returnPpm metrics).toInt
          (fixedRatio metrics.grossProfit metrics.grossLoss) positionUnits)
      else none := by
  have hprintable : Printable options.model := by
    simp only [modelNames, List.mem_cons, List.not_mem_nil, or_false] at hmodel
    rcases hmodel with h | h | h | h <;> rw [h] <;> decide
  have hbefore : List.Forall₂ EntryReads ((metricsMembers options metrics positionUnits).take 2)
      [("schema".toList, textNode "astra.replay.metrics.v1"),
        ("model".toList, .string options.model)] :=
    PlainKeys.reads (fun entry hentry => plainKeys_metricsMembers options metrics positionUnits
      entry (List.mem_of_mem_take hentry)) <|
      .cons (reads_text (by decide)) <| .cons (reads_escaped hprintable) .nil
  split_ifs with hinput
  · show loads (writeObject (metricsMembers options metrics positionUnits) ++ ['\n']) =
      some (.object _)
    refine loads_writeObject ((plainKeys_metricsMembers options metrics positionUnits).reads ?_) rfl
    exact .cons (reads_text (by decide)) <| .cons (reads_escaped hprintable) <|
      .cons (reads_escaped hinput) <| .cons reads_integer <| .cons reads_integer <|
      .cons reads_integer <| .cons reads_integer <| .cons reads_integer <| .cons reads_integer <|
      .cons reads_integer <| .cons reads_integer <| .cons reads_integer <| .cons reads_integer <|
      .cons reads_integer <| .cons reads_integer <| .cons reads_integer <| .cons reads_integer <|
      .cons reads_integer <| .cons ⟨rfl, reads_returnPpm metrics⟩ <| .cons reads_integer <|
      .cons reads_integer <| .cons reads_integer <| .cons reads_integer <| .cons reads_integer <|
      .cons reads_integer <| .cons (reads_text (unescaped_fixedRatio _ _)) <|
      .cons reads_integer .nil
  · have hkey : Unescaped "input".toList := by decide
    have hread : loads (writeObject ((metricsMembers options metrics positionUnits).take 2 ++
        ("input", .raw (jsonEscape options.input)) ::
          (metricsMembers options metrics positionUnits).drop 3) ++ ['\n']) = none :=
      loads_unreadable hbefore hkey (scanString_jsonEscape_eq_none hinput) ['\n']
    exact hread

theorem mem_jsonEscape {value : Line} {c : Char} (h : c ∈ jsonEscape value) :
    c = '\\' ∨ c ∈ value := by
  obtain ⟨d, hd, hc⟩ := List.mem_flatMap.mp h
  split_ifs at hc
  · rcases List.mem_cons.mp hc with rfl | hsame
    · exact .inl rfl
    · exact .inr (List.mem_singleton.mp hsame ▸ hd)
  · exact .inr (List.mem_singleton.mp hc ▸ hd)

theorem printable_metricsMembers {options : Arguments} (hmodel : options.model ∈ modelNames)
    (hinput : Printable options.input) (metrics : Metrics) (positionUnits : Int64) :
    Printable (writeObject (metricsMembers options metrics positionUnits)) := by
  have hname : ∀ name ∈ modelNames, Printable name := by decide
  have hescaped : ∀ value : Line, Printable value → Printable (jsonEscape value) := by
    intro value hvalue c hc
    rcases mem_jsonEscape hc with rfl | hmem
    · decide
    · exact hvalue c hmem
  have hratio := unescaped_fixedRatio metrics.grossProfit metrics.grossLoss
  have hschema : Printable "astra.replay.metrics.v1".toList := by decide
  have hreturn : Printable (wideText (returnPpm metrics)) := by
    cases reads_returnPpm metrics with
    | literal hprinted =>
      rw [hprinted]
      exact fun c hc => (isAscii_of_mem_printInt hc).1
  intro c hc
  refine forall_mem_writeObject (fun c hascii => hascii.1)
    (plainKeys_metricsMembers options metrics positionUnits) ?_ hc
  simp only [metricsMembers, List.forall_mem_cons, Field.All, true_and]
  exact ⟨hschema, hescaped _ (hname _ hmodel), hescaped _ hinput, hreturn,
    fun c hc => (hratio c hc).1, by simp⟩

end Lines
end Astra.Replay
