import AstraTrader.Replay.DetailLog
import AstraTrader.Replay.Program
import AstraTrader.Research.Report
import AstraTrader.Text.Breaks
import AstraTrader.Process.Tally

/-! The scripts that run `astra_replay` and read what it leaves: `run_cpp` of
`run_btc_tick_baseline_oos.py` and `run_one` of `run_btc_cpp_replay_report.py`. -/

namespace Astra.CppReport
open Replay Report Text Process FixedWidth

/-- The words behind the name of the binary. -/
def command (entries : List (String × Line)) : List Line :=
  entries.flatMap fun entry => ['-' :: '-' :: entry.1.toList, entry.2]

/-- `subprocess.run` with `check=True`. -/
def checkedRun (files : Files) (reply : ℕ → ModelState → LayaReply) (words : List Line) :
    Option Replay.Outcome :=
  if (main files reply words).exitCode = 0 then some (main files reply words) else none

def readMetrics (outcome : Replay.Outcome) : Option Node :=
  outcome.output.bind fun text => loads (uniformNewlines text)

/-- `run_cpp`. -/
def runCpp (files : Files) (reply : ℕ → ModelState → LayaReply) (inputPath tape output : Line)
    (startNs endNs fee slippage : ℤ) : Option Node := do
  readMetrics (← checkedRun files reply (command
    [("input", inputPath), ("output", output), ("model", "tape".toList), ("decision-tape", tape),
      ("decision-every", printInt 60), ("probability-threshold-ppm", printInt 0),
      ("start-ns", printInt startNs), ("end-ns", printInt endNs), ("taker-fee-ppm", printInt fee),
      ("market-slippage-ppm", printInt slippage)]))

/-- The keys of `COSTS`. -/
inductive CostScenario | base | stress
  deriving DecidableEq, Repr

def CostScenario.costs : CostScenario → ℕ × ℕ
  | .base => (500, 100)
  | .stress => (1000, 500)

def CostScenario.suffix : CostScenario → String
  | .base => ""
  | .stress => "-stress"

def splitName : Split → String
  | .developmentTrain => "development_train"
  | .developmentValidation => "development_validation"
  | .holdout2026 => "holdout_2026"

/-- The counts of `decision_tape`, without its times. -/
structure TapeSummary where
  decisions : ℕ := 0
  errors : ℕ := 0
  proposedActions : AList (fun _ : Line => ℕ) := ∅
  gatedHolds : ℕ := 0

/-- The line of a decision that has been read. -/
def TapeSummary.add (summary : TapeSummary) (proposed : Line) (gateHold succeeded : Bool) :
    TapeSummary where
  decisions := summary.decisions + 1
  errors := if succeeded then summary.errors else summary.errors + 1
  proposedActions := tally summary.proposedActions proposed
  gatedHolds := if gateHold then summary.gatedHolds + 1 else summary.gatedHolds

/-- A flag of an event; the writer puts down no other kinds of value. -/
def flag (event : Node) (key : String) : Option Bool :=
  match event.get key with
  | some (.bool value) => some value
  | none => some false
  | some _ => none

def proposedAction (event : Node) : Option Line :=
  match (event.get "proposed_action").or (event.get "action") with
  | some (.string value) => some value
  | none => some "unknown".toList
  | some _ => none

/-- One turn of the loop over the lines of the detail. -/
def summarise (summary : TapeSummary) (line : Line) : Option TapeSummary := do
  match ← loads line with
  | .object members =>
    let event := Node.object members
    match event.get "event" with
    | some (.string kind) =>
      if kind = "decision".toList then
        return summary.add (← proposedAction event) (← flag event "gate_hold")
          (← flag event "succeeded")
      else return summary
    | _ => return summary
  | _ => none

def readDetail (text : Line) : Option TapeSummary :=
  (splitLines (uniformNewlines text)).foldlM summarise {}

structure RunResult where
  metrics : Node
  split : Split
  costScenario : CostScenario
  decisionTape : Option TapeSummary

def rawPath (rawDir : Line) (split : Split) (model : Line) (cost : CostScenario)
    (extension : String) : Line :=
  rawDir ++ '/' :: (splitName split).toList ++ '-' :: model ++ cost.suffix.toList ++
    extension.toList

def oneEntries (inputPath rawDir : Line) (split : Split) (model : Line) (cost : CostScenario)
    (decisionEvery : ℤ) (includeDetail : Bool) : List (String × Line) :=
  [("input", inputPath), ("output", rawPath rawDir split model cost ".json"), ("model", model),
    ("decision-every", printInt decisionEvery), ("start-ns", printInt split.start),
    ("end-ns", printInt split.stop), ("taker-fee-ppm", printInt cost.costs.1),
    ("market-slippage-ppm", printInt cost.costs.2)] ++
  if includeDetail then [("detail", rawPath rawDir split model cost ".jsonl")] else []

/-- `run_one`. -/
def runOne (files : Files) (reply : ℕ → ModelState → LayaReply) (inputPath rawDir : Line)
    (split : Split) (model : Line) (costScenario : CostScenario) (decisionEvery : ℤ)
    (includeDetail : Bool) : Option RunResult := do
  let completed ← checkedRun files reply
    (command (oneEntries inputPath rawDir split model costScenario decisionEvery includeDetail))
  let metrics ← readMetrics completed
  let decisionTape ← match includeDetail, completed.detail with
    | true, some text => (readDetail text).map some
    | _, _ => some none
  return { metrics, split, costScenario, decisionTape }

section Commands
variable {entries : List (String × Line)} {options : Arguments}

/-- What an option of the table makes of its value. -/
def applied (options : Arguments) (entry : String × Line) : Arguments :=
  (⟨[], '-' :: '-' :: entry.1.toList, entry.2⟩ : Setting Line).apply optionTable options

/-- The entries are read, and make of the options what is given. -/
structure Leads (options : Arguments) (entries : List (String × Line)) (result : Arguments) :
    Prop where
  read : ∀ entry ∈ entries, ((⟨[], '-' :: '-' :: entry.1.toList, entry.2⟩ :
    Setting Line).read optionTable).isSome = true
  result : entries.foldl applied options = result

theorem Leads.nil : Leads options [] options := ⟨by simp, rfl⟩

theorem Leads.cons {name : String} {value : Line} {set : Arguments → Arguments} {result : Arguments}
    (h : (⟨[], '-' :: '-' :: name.toList, value⟩ : Setting Line).read optionTable = some set)
    (hrest : Leads (set options) entries result) :
    Leads options ((name, value) :: entries) result :=
  ⟨List.forall_mem_cons.mpr ⟨congrArg Option.isSome h, hrest.read⟩,
    (congrArg (fun set => entries.foldl applied ((set.getD id) options)) h).trans hrest.result⟩

theorem read_getElem? {i : ℕ} {handler : Handler Line Arguments}
    (h : optionTable[i]? = some handler) (value : Line) :
    (⟨[], handler.name, value⟩ : Setting Line).read optionTable = handler.read value :=
  Setting.read_of_mem kinds_optionTable (List.mem_of_getElem? h) rfl

theorem Leads.text {name : String} {value : Line} {set : Line → Arguments → Arguments}
    {result : Arguments} (i : ℕ) (h : optionTable[i]? = some (textOption name set))
    (hrest : Leads (set value options) entries result) :
    Leads options ((name, value) :: entries) result := .cons (read_getElem? h value) hrest

theorem Leads.number {α : Type} {name : String} {value : Line} {parse : Line → Option α}
    {set : α → Arguments → Arguments} {a : α} {result : Arguments} (i : ℕ)
    (h : optionTable[i]? = some (numberOption name parse set)) (hparse : parse value = some a)
    (hrest : Leads (set a options) entries result) :
    Leads options ((name, value) :: entries) result := by
  have hread : (numberOption name parse set).read value = some (set a) :=
    congrArg (Option.map set) hparse
  exact .cons ((read_getElem? h value).trans hread) hrest

theorem Leads.parseOptions {result : Arguments} (h : Leads {} entries result)
    (hchecked : result.Checked) : parseOptions (command entries) = some ⟨result, hchecked⟩ := by
  have hflat : command entries = (entries.map fun entry =>
      ('-' :: '-' :: entry.1.toList, entry.2)).flatMap fun entry => [entry.1, entry.2] := by
    rw [List.flatMap_map]
    rfl
  have hwords : readWords optionTable (command entries) {} = some result := by
    rw [hflat, readWords_flatMap kinds_optionTable (List.forall_mem_map.mpr h.read),
      List.foldl_map, ← h.result]
    rfl
  refine Option.bind_eq_some_iff.mpr ⟨result, hwords, ?_⟩
  rw [dif_pos hchecked]

theorem parseUInt32_printInt {n : ℕ} (h : n < 2 ^ 32) :
    parseUInt32 (printInt n) = some (UInt32.ofNat n) := by
  refine parseUInt32_eq_some_iff.mpr ?_
  rw [UInt32.toNat_ofNat_of_lt' h]
  exact ⟨0, rfl⟩

theorem parseUInt64_printInt {n : ℕ} (h : n < 2 ^ 64) :
    parseUInt64 (printInt n) = some (UInt64.ofNat n) := by
  refine parseUInt64_eq_some_iff.mpr ?_
  rw [UInt64.toNat_ofNat_of_lt' h]
  exact ⟨0, rfl⟩

end Commands

/-- What `run_cpp` asks for. -/
def tapeArguments (inputPath tape output : Line) (startNs endNs : ℤ) (fee slippage : ℕ) :
    Arguments where
  input := inputPath
  output
  model := "tape".toList
  decisionTape := tape
  decisionEvery := 60
  probabilityThresholdPpm := 0
  startNs := Int64.ofInt startNs
  endNs := Int64.ofInt endNs
  takerFeePpm := UInt32.ofNat fee
  marketSlippagePpm := UInt32.ofNat slippage

theorem leads_tape {inputPath tape output : Line} {startNs endNs : ℤ} {fee slippage : ℕ}
    (hstart : InRange64 startNs) (hend : InRange64 endNs) (hfee : fee ≤ 1000000)
    (hslippage : slippage ≤ 1000000) :
    Leads {} [("input", inputPath), ("output", output), ("model", "tape".toList),
        ("decision-tape", tape), ("decision-every", printInt 60),
        ("probability-threshold-ppm", printInt 0), ("start-ns", printInt startNs),
        ("end-ns", printInt endNs), ("taker-fee-ppm", printInt fee),
        ("market-slippage-ppm", printInt slippage)]
      (tapeArguments inputPath tape output startNs endNs fee slippage) :=
  .text 0 rfl <| .text 1 rfl <| .text 3 rfl <| .text 4 rfl <|
    .number 7 rfl (parseUInt64_printInt (n := 60) (by decide)) <|
    .number 11 rfl (parseUInt32_printInt (n := 0) (by decide)) <|
    .number 8 rfl (parseInt64_printInt hstart) <| .number 9 rfl (parseInt64_printInt hend) <|
    .number 12 rfl (parseUInt32_printInt (by omega)) <|
    .number 13 rfl (parseUInt32_printInt (by omega)) .nil

theorem toNat_ofNat_le {n : ℕ} (h : n ≤ 1000000) : UInt32.ofNat n ≤ 1000000 := by
  rw [UInt32.le_iff_toNat_le, UInt32.toNat_ofNat_of_lt' (lt_of_le_of_lt h (by decide))]
  exact h

theorem tapeArguments_checked {inputPath tape output : Line} (hinput : inputPath ≠ [])
    (htape : tape ≠ []) (houtput : output ≠ []) {fee slippage : ℕ} (hfee : fee ≤ 1000000)
    (hslippage : slippage ≤ 1000000) (startNs endNs : ℤ) :
    (tapeArguments inputPath tape output startNs endNs fee slippage).Checked where
  input := hinput
  output := houtput
  decisionEvery := (by decide : (0 : UInt64) < 60)
  model := List.mem_of_getElem? (i := 3) rfl
  decisionTape := .inr htape
  feedLatencyNs := (by decide : (0 : Int64) ≤ 1000000)
  layaTimeoutMs := (by decide : (0 : Int64) < 250)
  takerFeePpm := toNat_ofNat_le hfee
  marketSlippagePpm := toNat_ofNat_le hslippage

section Runs
variable {files : Files} {reply : ℕ → ModelState → LayaReply} {words : List Line}
  {options : { options : Arguments // options.Checked }} {model : Model} {rows : List MarketEvent}

theorem metricsOf_uniform {options : { options : Arguments // options.Checked }}
    (hinput : Printable options.val.input) (state : State) :
    uniformNewlines (metricsOf options.val state) = metricsOf options.val state := by
  refine uniformNewlines_of_not_mem fun hreturn => ?_
  rcases List.mem_append.mp hreturn with hwritten | hfeed
  · exact absurd (printable_metricsMembers options.property.model hinput _ _ _ hwritten)
      (by decide)
  · exact absurd hfeed (by decide)

theorem readMetrics_of_ready (h : Ready files reply words options model rows)
    (hinput : Printable options.val.input) :
    ∃ completed, checkedRun files reply words = some completed ∧
      readMetrics completed =
        some (reportNode options.val (replay (replayOptions options model) rows)) ∧
      completed.detail =
        detailFile options.val (detailedReplay (replayOptions options model) rows) := by
  have hmain := h.main_eq
  refine ⟨_, if_pos (by rw [hmain]), ?_, by rw [hmain]⟩
  rw [hmain]
  show loads (uniformNewlines (metricsOf options.val _)) = _
  rw [metricsOf_uniform hinput]
  have hread := loads_metricsJson options.property.model
    (report (replay (replayOptions options model) rows))
    (replay (replayOptions options model) rows).exchange.ledger.state.positionUnits
  rw [if_pos hinput] at hread
  exact hread

end Runs

/-- The options of the replay behind `run_cpp`. -/
def tapeOptions (tape : DecisionTape) (startNs endNs : ℤ) {fee slippage : ℕ} (hfee : fee ≤ 1000000)
    (hslippage : slippage ≤ 1000000) : Options where
  model := .tape tape
  decisionEvery := 60
  startNs := Int64.ofInt startNs
  endNs := Int64.ofInt endNs
  probabilityThresholdPpm := 0
  takerFeePpm := UInt32.ofNat fee
  marketSlippagePpm := UInt32.ofNat slippage
  takerFeePpm_le := toNat_ofNat_le hfee
  marketSlippagePpm_le := toNat_ofNat_le hslippage

/-- What `run_cpp` reads back is the replay of the minutes that were written, under decisions that
reproduce the tape that was written. -/
theorem runCpp_reports {files : Files} {inputPath tape output : Line} {items : List Minute}
    {rows : List TapeRow} {startNs endNs : ℤ} {fee slippage : ℕ}
    (reply : ℕ → ModelState → LayaReply) (hinput : Printable inputPath)
    (hnames : inputPath ≠ [] ∧ tape ≠ [] ∧ output ≠ [])
    (hitems : ∀ (k : ℕ) (item : Minute), items[k]? = some item → item.Emittable 1000000 (1 + k))
    (hstream : files.content inputPath = some (writeStream items)) (hrows : rows ≠ [])
    (htape : files.content tape = some (writeTape rows)) (houtput : files.writable output = true)
    (hstart : InRange64 startNs) (hend : InRange64 endNs) (hfee : fee ≤ 1000000)
    (hslippage : slippage ≤ 1000000) :
    ∃ decisions : DecisionTape, Reproduces rows decisions ∧
      runCpp files reply inputPath tape output startNs endNs fee slippage =
        some (reportNode (tapeArguments inputPath tape output startNs endNs fee slippage)
          (replay (tapeOptions decisions startNs endNs hfee hslippage)
            (streamEvents 1000000 1 items))) := by
  have hchecked := tapeArguments_checked hnames.1 hnames.2.1 hnames.2.2 hfee hslippage startNs endNs
  have hparsed := (leads_tape hstart hend hfee hslippage).parseOptions hchecked
  have hmodel : loadModel files reply
      (tapeArguments inputPath tape output startNs endNs fee slippage) =
        .ok (.tape (DecisionTape.empty.insertRows rows)) := by
    have hloaded := load_writeTape_eq (String.ofList tape) hrows
    rw [← htape] at hloaded
    exact congrArg (Except.map Model.tape) hloaded
  have hready : Ready files reply _ ⟨_, hchecked⟩ _ (streamEvents 1000000 1 items) :=
    ⟨hparsed, houtput, .inl rfl, hmodel, _, hstream,
      readStream_writeStream (by decide : 0 ≤ (1000000 : Int64).toInt) hitems⟩
  obtain ⟨completed, hrun, hread, _⟩ := readMetrics_of_ready hready hinput
  refine ⟨_, reproduces_insertRows rows, ?_⟩
  rw [runCpp]
  exact Option.bind_eq_some_iff.mpr ⟨completed, hrun, hread⟩

/-- A minute, and a tape that goes long at it. -/
theorem runCpp_reports_oneMinute :
    let item : Minute := { timestampMs := 1735689600000, closePrice := 100, buyNotional := 3
                           sellNotional := 1 }
    let row : TapeRow := { sequence := 1, action := .longPosition, longProbabilityPpm := 900000
                           shortProbabilityPpm := 50000, holdProbabilityPpm := 50000
                           sequence_pos := by decide, sequence_lt := by decide
                           longProbabilityPpm_le := by decide
                           shortProbabilityPpm_le := by decide
                           holdProbabilityPpm_le := by decide }
    let files : Files :=
      { content := fun name =>
          if name = "in.csv".toList then some (writeStream [item])
          else if name = "tape.csv".toList then some (writeTape [row]) else none
        writable := fun _ => true }
    ∃ decisions : DecisionTape, Reproduces [row] decisions ∧
      runCpp files (fun _ _ => .failed 0 "") "in.csv".toList "tape.csv".toList "out.json".toList
          1735689600000000000 1751327999000000000 500 100 =
        some (reportNode (tapeArguments "in.csv".toList "tape.csv".toList "out.json".toList
            1735689600000000000 1751327999000000000 500 100)
          (replay (tapeOptions decisions 1735689600000000000 1751327999000000000
            (by decide : 500 ≤ 1000000) (by decide : 100 ≤ 1000000))
            (streamEvents 1000000 1 [item]))) := by
  intro item row files
  have hitems : ∀ (k : ℕ) (other : Minute), [item][k]? = some other →
      other.Emittable 1000000 (1 + k) := by
    intro k other hother
    cases k with
    | zero =>
      obtain rfl := Option.some.inj hother
      decide +kernel
    | succ k => exact absurd hother (by simp)
  exact runCpp_reports _ (by decide) (by decide) hitems rfl (by simp) rfl rfl
    (by decide) (by decide) (by decide) (by decide)

/-! ### The detail -/

/-- The name of the model, if there is one, stands on one line. -/
def Tidy : DetailLine → Prop
  | .decision made _ _ => Printable made.model.toList ∧ Unbroken made.model.toList
  | .fill _ => True

/-- What a line adds to the counts. -/
def TapeSummary.addLine (summary : TapeSummary) : DetailLine → TapeSummary
  | .decision made proposedAction gateHold =>
    summary.add (LayaGateway.actionText proposedAction).toList gateHold made.succeeded
  | .fill _ => summary

section Detail
variable {line : DetailLine} {lines : List DetailLine} {summary : TapeSummary}

theorem unbroken_lineText (h : Tidy line) : Unbroken (lineText line) := by
  cases line with
  | decision made proposedAction gateHold =>
    have haction : ∀ action, Unbroken (LayaGateway.actionText action).toList := by
      intro action
      cases action <;> decide
    have hevent : Unbroken "decision".toList := by decide
    apply unbroken_writeObject (plainKeys_decisionMembers _ _ _)
    simp only [decisionMembers, List.forall_mem_cons, Field.All, true_and]
    refine ⟨hevent, haction _, haction _, fun d hd => ?_, by simp⟩
    rcases mem_jsonEscape hd with rfl | hmem
    · rfl
    · exact h.2 d hmem
  | fill trade =>
    have hside : ∀ side, Unbroken (sideText side).toList := by
      intro side
      cases side <;> decide
    have hevent : Unbroken "fill".toList := by decide
    apply unbroken_writeObject (plainKeys_fillMembers _)
    simp only [fillMembers, List.forall_mem_cons, Field.All, true_and]
    exact ⟨hevent, hside _, by simp⟩

theorem summarise_lineText (h : Tidy line) (summary : TapeSummary) :
    summarise summary (lineText line) = some (summary.addLine line) := by
  cases line with
  | decision made proposedAction gateHold =>
    rw [summarise, loads_decision, if_pos h.1]
    rfl
  | fill trade =>
    rw [summarise, loads_fill]
    rfl

theorem foldlM_summarise (h : ∀ line ∈ lines, Tidy line) (summary : TapeSummary) :
    (lines.map lineText).foldlM summarise summary =
      some (lines.foldl TapeSummary.addLine summary) := by
  induction lines generalizing summary with
  | nil => rfl
  | cons line lines ih =>
    rw [List.map_cons, List.foldlM_cons, summarise_lineText (h line (List.mem_cons_self ..)),
      List.foldl_cons]
    exact ih (fun other hother => h other (List.mem_cons_of_mem _ hother)) _

theorem splitLines_detailText (h : ∀ line ∈ lines, Tidy line) :
    splitLines (uniformNewlines (detailText lines)) = lines.map lineText := by
  have hunbroken : ∀ text ∈ lines.map lineText, Unbroken text :=
    List.forall_mem_map.mpr fun line hline => unbroken_lineText (h line hline)
  have htext : detailText lines = (lines.map lineText).flatMap fun line => line ++ ['\n'] := by
    rw [List.flatMap_map]
    rfl
  have huniform : uniformNewlines (detailText lines) = detailText lines := by
    refine uniformNewlines_of_not_mem fun hreturn => ?_
    obtain ⟨line, hline, hc⟩ := List.mem_flatMap.mp hreturn
    rcases List.mem_append.mp hc with hwritten | hfeed
    · exact absurd (unbroken_lineText (h line hline) _ hwritten) (by decide)
    · exact absurd hfeed (by decide)
  rw [huniform, htext, splitLines_flatMap hunbroken]

theorem readDetail_detailText (h : ∀ line ∈ lines, Tidy line) :
    readDetail (detailText lines) = some (lines.foldl TapeSummary.addLine {}) := by
  rw [readDetail, splitLines_detailText h]
  exact foldlM_summarise h {}

end Detail

def fails : DetailLine → Bool
  | .decision made _ _ => !made.succeeded
  | .fill _ => false

def isHeld : DetailLine → Bool
  | .decision _ _ gateHold => gateHold
  | .fill _ => false

def proposes (action : ModelAction) : DetailLine → Bool
  | .decision _ proposedAction _ => proposedAction = action
  | .fill _ => false

/-- The counts are those of the lines. -/
structure Summarises (lines : List DetailLine) (summary : TapeSummary) : Prop where
  decisions : summary.decisions = lines.countP DetailLine.isDecision
  errors : summary.errors = lines.countP fails
  gatedHolds : summary.gatedHolds = lines.countP isHeld
  proposedActions : ∀ action, (summary.proposedActions.lookup
    (LayaGateway.actionText action).toList).getD 0 = lines.countP (proposes action)

section Counts
variable {lines : List DetailLine} {summary : TapeSummary}

theorem countP_concat {p : DetailLine → Bool} (line : DetailLine) :
    (lines ++ [line]).countP p = lines.countP p + if p line then 1 else 0 := by
  rw [List.countP_append, List.countP_singleton]

theorem Summarises.concat (h : Summarises lines summary) (line : DetailLine) :
    Summarises (lines ++ [line]) (summary.addLine line) := by
  cases line with
  | fill trade =>
    refine ⟨?_, ?_, ?_, fun action => ?_⟩ <;> rw [countP_concat]
    · exact h.decisions
    · exact h.errors
    · exact h.gatedHolds
    · exact h.proposedActions action
  | decision made proposedAction gateHold =>
    refine ⟨?_, ?_, ?_, fun action => ?_⟩ <;> rw [countP_concat]
    · rw [← h.decisions]
      rfl
    · rw [← h.errors]
      show (if made.succeeded = true then summary.errors else summary.errors + 1) = _
      cases hsucceeded : made.succeeded <;> simp [fails, hsucceeded]
    · rw [← h.gatedHolds]
      show (if gateHold = true then summary.gatedHolds + 1 else summary.gatedHolds) = _
      cases gateHold <;> rfl
    · rw [← h.proposedActions]
      show ((tally summary.proposedActions _).lookup _).getD 0 = _
      rw [lookup_tally]
      simp only [proposes, decide_eq_true_eq, actionText_injective.eq_iff]

theorem summarises_foldl (lines : List DetailLine) :
    Summarises lines (lines.foldl TapeSummary.addLine {}) := by
  induction lines using List.reverseRecOn with
  | nil => exact ⟨rfl, rfl, rfl, fun action => rfl⟩
  | append_singleton lines line ih =>
    rw [List.foldl_concat]
    exact ih.concat line

end Counts

/-- The models that the script runs. -/
inductive ScriptModel | hold | baseline | laya
  deriving DecidableEq

def ScriptModel.name : ScriptModel → Line
  | .hold => "hold".toList
  | .baseline => "baseline".toList
  | .laya => "laya".toList

theorem ScriptModel.name_mem (model : ScriptModel) :
    model.name ∈ modelNames ∧ model.name ≠ "tape".toList := by
  cases model <;> decide

def ScriptModel.load (reply : ℕ → ModelState → LayaReply) : ScriptModel → Model
  | .hold => .hold
  | .baseline => .baseline
  | .laya => .laya reply

/-- The server gives names for its model that stand on one line. -/
def NamesModel (reply : ℕ → ModelState → LayaReply) : Prop :=
  ∀ (count : ℕ) (modelState : ModelState),
    Printable (layaDecision modelState (reply count modelState)).model.toList ∧
      Unbroken (layaDecision modelState (reply count modelState)).model.toList

/-- What `run_one` asks for. -/
def oneArguments (inputPath rawDir : Line) (split : Split) (model : ScriptModel)
    (cost : CostScenario) (decisionEvery : ℕ) (includeDetail : Bool) : Arguments where
  input := inputPath
  output := rawPath rawDir split model.name cost ".json"
  detail := if includeDetail then rawPath rawDir split model.name cost ".jsonl" else []
  model := model.name
  decisionEvery := UInt64.ofNat decisionEvery
  startNs := Int64.ofInt split.start
  endNs := Int64.ofInt split.stop
  takerFeePpm := UInt32.ofNat cost.costs.1
  marketSlippagePpm := UInt32.ofNat cost.costs.2

section One
variable {files : Files} {reply : ℕ → ModelState → LayaReply} {inputPath rawDir : Line}
  {split : Split} {model : ScriptModel} {cost : CostScenario} {decisionEvery : ℕ}
  {includeDetail : Bool}

theorem leads_one (hevery : decisionEvery < 2 ^ 64) :
    Leads {} (oneEntries inputPath rawDir split model.name cost decisionEvery includeDetail)
      (oneArguments inputPath rawDir split model cost decisionEvery includeDetail) := by
  have hsplit : InRange64 split.start ∧ InRange64 split.stop := by
    cases split <;> decide
  have hcosts : cost.costs.1 < 2 ^ 32 ∧ cost.costs.2 < 2 ^ 32 := by
    cases cost <;> decide
  refine .text 0 rfl <| .text 1 rfl <| .text 3 rfl <|
    .number 7 rfl (parseUInt64_printInt hevery) <| .number 8 rfl (parseInt64_printInt hsplit.1) <|
    .number 9 rfl (parseInt64_printInt hsplit.2) <|
    .number 12 rfl (parseUInt32_printInt hcosts.1) <|
    .number 13 rfl (parseUInt32_printInt hcosts.2) ?_
  cases includeDetail with
  | false => exact .nil
  | true => exact .text 2 rfl .nil

theorem rawPath_ne_nil (extension : String) :
    rawPath rawDir split model.name cost extension ≠ [] := by
  simp [rawPath]

theorem oneArguments_checked (hinput : inputPath ≠ []) (hpos : 0 < decisionEvery)
    (hevery : decisionEvery < 2 ^ 64) :
    (oneArguments inputPath rawDir split model cost decisionEvery includeDetail).Checked where
  input := hinput
  output := rawPath_ne_nil ".json"
  decisionEvery := by
    show (0 : UInt64) < UInt64.ofNat decisionEvery
    rw [UInt64.lt_iff_toNat_lt, UInt64.toNat_ofNat_of_lt' hevery]
    exact hpos
  model := model.name_mem.1
  decisionTape := .inl model.name_mem.2
  feedLatencyNs := (by decide : (0 : Int64) ≤ 1000000)
  layaTimeoutMs := (by decide : (0 : Int64) < 250)
  takerFeePpm := toNat_ofNat_le (by cases cost <;> decide)
  marketSlippagePpm := toNat_ofNat_le (by cases cost <;> decide)

theorem loadModel_one : loadModel files reply
    (oneArguments inputPath rawDir split model cost decisionEvery includeDetail) =
      .ok (model.load reply) := by
  cases model <;> rfl

theorem tidy_of_names {options : Options}
    (hnames : ∀ (count : ℕ) (modelState : ModelState),
      Printable (options.model.decide count modelState).model.toList ∧
        Unbroken (options.model.decide count modelState).model.toList)
    (rows : List MarketEvent) : ∀ line ∈ (detailedReplay options rows).lines, Tidy line := by
  refine forall_mem_detailedReplay (fun count modelState => ?_) (fun _ => trivial) rows
  have hkept : ∀ decision : ModelDecision, (gate options decision).model = decision.model := by
    intro decision
    unfold gate
    split_ifs <;> rfl
  show Printable (gate options _).model.toList ∧ Unbroken (gate options _).model.toList
  rw [hkept]
  exact hnames count modelState

theorem plain_names : ∀ name ∈ ["hold", "flow-baseline", "decision-tape"],
    Printable name.toList ∧ Unbroken name.toList := by decide

theorem baselineDecision_model (modelState : ModelState) :
    (baselineDecision modelState).model = "flow-baseline" := by
  unfold baselineDecision
  dsimp only
  split_ifs <;> rfl

theorem tidy_detailedReplay (hnames : model = .laya → NamesModel reply) {options : Options}
    (hmodel : options.model = model.load reply) (rows : List MarketEvent) :
    ∀ line ∈ (detailedReplay options rows).lines, Tidy line := by
  refine tidy_of_names (fun count modelState => ?_) rows
  rw [hmodel]
  cases model with
  | hold => exact plain_names "hold" (by simp)
  | baseline =>
    have hdecision : ((ScriptModel.baseline.load reply).decide count modelState).model =
      "flow-baseline" := baselineDecision_model modelState
    rw [hdecision]
    exact plain_names "flow-baseline" (by simp)
  | laya => exact hnames rfl count modelState

end One

/-- The options of the replay behind `run_one`. -/
def oneOptions (reply : ℕ → ModelState → LayaReply) (split : Split) (model : ScriptModel)
    (cost : CostScenario) {decisionEvery : ℕ} (hpos : 0 < decisionEvery)
    (hevery : decisionEvery < 2 ^ 64) : Options where
  model := model.load reply
  decisionEvery := UInt64.ofNat decisionEvery
  startNs := Int64.ofInt split.start
  endNs := Int64.ofInt split.stop
  takerFeePpm := UInt32.ofNat cost.costs.1
  marketSlippagePpm := UInt32.ofNat cost.costs.2
  decisionEvery_pos := by
    rw [UInt64.lt_iff_toNat_lt, UInt64.toNat_ofNat_of_lt' hevery]
    exact hpos
  takerFeePpm_le := toNat_ofNat_le (by cases cost <;> decide)
  marketSlippagePpm_le := toNat_ofNat_le (by cases cost <;> decide)

/-- What `run_one` returns: the report of the replay, and the counts of all of its decisions. -/
structure Returns (reply : ℕ → ModelState → LayaReply) (arguments : Arguments) (options : Options)
    (rows : List MarketEvent) (includeDetail : Bool) (result : RunResult) : Prop where
  metrics : result.metrics = reportNode arguments (replay options rows)
  decisionTape : if includeDetail then ∃ summary, result.decisionTape = some summary ∧
      Summarises (detailedReplay options rows).lines summary ∧
      summary.decisions = (report (replay options rows)).decisions
    else result.decisionTape = none

/-- `run_one` over a stream that was written returns the report of the replay of its minutes. -/
theorem runOne_returns {files : Files} {reply : ℕ → ModelState → LayaReply}
    {inputPath rawDir : Line} {items : List Minute} {decisionEvery : ℕ} (split : Split)
    (model : ScriptModel) (cost : CostScenario) (includeDetail : Bool)
    (hinput : Printable inputPath) (hname : inputPath ≠ []) (hpos : 0 < decisionEvery)
    (hevery : decisionEvery < 2 ^ 64) (hnames : model = .laya → NamesModel reply)
    (hitems : ∀ (k : ℕ) (item : Minute), items[k]? = some item → item.Emittable 1000000 (1 + k))
    (hstream : files.content inputPath = some (writeStream items))
    (houtput : ∀ extension,
      files.writable (rawPath rawDir split model.name cost extension) = true) :
    ∃ result, runOne files reply inputPath rawDir split model.name cost decisionEvery
        includeDetail = some result ∧ result.split = split ∧ result.costScenario = cost ∧
      Returns reply (oneArguments inputPath rawDir split model cost decisionEvery includeDetail)
        (oneOptions reply split model cost hpos hevery) (streamEvents 1000000 1 items)
        includeDetail result := by
  have hchecked : (oneArguments inputPath rawDir split model cost decisionEvery
    includeDetail).Checked := oneArguments_checked hname hpos hevery
  have hparsed := (leads_one hevery).parseOptions hchecked
  have hdetail : (oneArguments inputPath rawDir split model cost decisionEvery
      includeDetail).detail = [] ∨ files.writable (oneArguments inputPath rawDir split model cost
        decisionEvery includeDetail).detail = true := by
    cases includeDetail with
    | false => exact .inl rfl
    | true => exact .inr (houtput ".jsonl")
  have hready : Ready files reply _ ⟨_, hchecked⟩ (model.load reply)
      (streamEvents 1000000 1 items) :=
    ⟨hparsed, houtput ".json", hdetail, loadModel_one, _, hstream,
      readStream_writeStream (by decide : 0 ≤ (1000000 : Int64).toInt) hitems⟩
  obtain ⟨completed, hrun, hread, hwritten⟩ := readMetrics_of_ready hready hinput
  have hoptions : replayOptions ⟨_, hchecked⟩ (model.load reply) =
    oneOptions reply split model cost hpos hevery := rfl
  rw [hoptions] at hread hwritten
  have htidy := tidy_detailedReplay hnames
    (rfl : (oneOptions reply split model cost hpos hevery).model = model.load reply)
    (streamEvents 1000000 1 items)
  have hlogged := logged_detailedReplay (oneOptions reply split model cost hpos hevery)
    (streamEvents 1000000 1 items)
  rw [detailedReplay_state] at hlogged
  unfold runOne
  rw [hrun]
  simp only [Option.bind_eq_bind, Option.bind_some, hread]
  cases includeDetail with
  | false => exact ⟨_, rfl, rfl, rfl, rfl, rfl⟩
  | true =>
    have hfile : completed.detail = some (detailText (detailedReplay
        (oneOptions reply split model cost hpos hevery) (streamEvents 1000000 1 items)).lines) := by
      rw [hwritten]
      exact if_neg (rawPath_ne_nil ".jsonl")
    rw [hfile]
    simp only [readDetail_detailText htidy, Option.map_some, Option.bind_some]
    have hcounts := summarises_foldl (detailedReplay (oneOptions reply split model cost hpos hevery)
      (streamEvents 1000000 1 items)).lines
    exact ⟨_, rfl, rfl, rfl, rfl, _, rfl, hcounts, hcounts.decisions.trans hlogged.decisions⟩

/-- A minute at which the flow baseline goes long, with the detail asked for. -/
theorem runOne_returns_oneMinute :
    let item : Minute := { timestampMs := 1735689600000, closePrice := 100, buyNotional := 3
                           sellNotional := 1 }
    let files : Files :=
      { content := fun name => if name = "in.csv".toList then some (writeStream [item]) else none
        writable := fun _ => true }
    ∃ result, runOne files (fun _ _ => .failed 0 "") "in.csv".toList "raw".toList
        .developmentTrain (ScriptModel.name .baseline) .stress (1 : ℕ) true = some result ∧
      result.split = .developmentTrain ∧ result.costScenario = .stress ∧
      Returns (fun _ _ => .failed 0 "") (oneArguments "in.csv".toList "raw".toList .developmentTrain
          .baseline .stress 1 true)
        (oneOptions (fun _ _ => .failed 0 "") .developmentTrain .baseline .stress Nat.one_pos
          (by decide))
        (streamEvents 1000000 1 [item]) true result := by
  intro item files
  have hitems : ∀ (k : ℕ) (other : Minute), [item][k]? = some other →
      other.Emittable 1000000 (1 + k) := by
    intro k other hother
    cases k with
    | zero =>
      obtain rfl := Option.some.inj hother
      decide +kernel
    | succ k => exact absurd hother (by simp)
  exact runOne_returns .developmentTrain .baseline .stress true (by decide)
    (by decide) Nat.one_pos (by decide) (fun h => absurd h (by decide)) hitems rfl fun _ => rfl

end Astra.CppReport
