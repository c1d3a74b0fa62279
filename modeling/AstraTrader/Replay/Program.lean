import AstraTrader.Replay.ReadBack
import AstraTrader.Replay.StreamFormat
import AstraTrader.Replay.TapeFormat

/-! `main` of `astra_replay`, from its command line to its exit code and the texts it leaves. Two
names are two files. In `main` all files are read as they are at the start; `mainOnDisk` opens the
output and the detail first, which empties them. -/

namespace Astra.Replay
open Text Process

/-- What can be opened. -/
structure Files where
  content : Line → Option Line
  writable : Line → Bool

structure Outcome where
  exitCode : ℕ
  stderr : Line := []
  stdout : Line := []
  /-- What is left in the output file, once it has been opened. -/
  output : Option Line := none
  detail : Option Line := none
  deriving DecidableEq

def usage : Line :=
  ("usage: astra_replay --input FILE --output FILE " ++
    "[--detail FILE] [--model baseline|hold|laya|tape] " ++ "[--decision-tape FILE] " ++
    "[--decision-every N] [--start-ns N] [--end-ns N] " ++
    "[--feed-latency-ns N] [--probability-threshold-ppm N] " ++
    "[--taker-fee-ppm N] [--market-slippage-ppm N] " ++
    "[--laya-host HOST] [--laya-port PORT] [--laya-timeout-ms N]\n").toList

def Arguments.toOptions (options : Arguments) (h : options.Checked) (model : Model) : Options where
  model
  decisionEvery := options.decisionEvery
  startNs := options.startNs
  endNs := options.endNs
  feedLatencyNs := options.feedLatencyNs
  probabilityThresholdPpm := options.probabilityThresholdPpm
  takerFeePpm := options.takerFeePpm
  marketSlippagePpm := options.marketSlippagePpm
  decisionEvery_pos := h.decisionEvery
  feedLatencyNs_nonneg := h.feedLatencyNs
  takerFeePpm_le := h.takerFeePpm
  marketSlippagePpm_le := h.marketSlippagePpm

/-- The model by its name; `reply` is the server behind the gateway. -/
def loadModel (files : Files) (reply : ℕ → ModelState → LayaReply) (options : Arguments) :
    Except String Model :=
  if options.model = "baseline".toList then .ok .baseline
  else if options.model = "hold".toList then .ok .hold
  else if options.model = "laya".toList then .ok (.laya reply)
  else (DecisionTape.load (String.ofList options.decisionTape)
    (files.content options.decisionTape)).map .tape

/-- The loop over the lines of the input, which ends at the first row that does not parse. -/
def mainLoop (options : Options) (rowNumber : ℕ) : List Line → Detailed → Option ℕ × Detailed
  | [], detailed => (none, detailed)
  | line :: rest, detailed =>
    match parseLine options.feedLatencyNs line with
    | none => (some (rowNumber + 1), detailed)
    | some row => mainLoop options (rowNumber + 1) rest (detailStep options detailed row)

/-- The detail file that a run has written to, if one was asked for. -/
def detailFile (options : Arguments) (detailed : Detailed) : Option Line :=
  if options.detail = [] then none else some (detailText detailed.lines)

def metricsOf (options : Arguments) (state : State) : Line :=
  metricsJson options (report state) state.exchange.ledger.state.positionUnits

/-- What the metrics of a replay are read back as. -/
def reportNode (options : Arguments) (state : State) : Node :=
  metricsNode options (report state) (returnPpm (report state)).toInt
    (fixedRatio (report state).grossProfit (report state).grossLoss)
    state.exchange.ledger.state.positionUnits

/-- From the point where all files are open and the model is there. -/
def runRows (options : Arguments) (replayOptions : Options) (text : Line) : Outcome :=
  match mainLoop replayOptions 0 (rowsOf text) { state := initial replayOptions } with
  | (some row, detailed) =>
    { exitCode := 65
      stderr := ("invalid replay row " ++ toString row ++ "\n").toList
      output := some []
      detail := detailFile options detailed }
  | (none, detailed) =>
    { exitCode := 0
      stdout := metricsOf options detailed.state
      output := some (metricsOf options detailed.state)
      detail := detailFile options detailed }

def main (files : Files) (reply : ℕ → ModelState → LayaReply) (words : List Line) : Outcome :=
  match parseOptions words with
  | none => { exitCode := 64, stderr := usage }
  | some ⟨options, h⟩ =>
    match files.content options.input with
    | none =>
      { exitCode := 66, stderr := "cannot open input: ".toList ++ options.input ++ ['\n'] }
    | some text =>
      if files.writable options.output = false then
        { exitCode := 73, stderr := "cannot open output: ".toList ++ options.output ++ ['\n'] }
      else if options.detail ≠ [] ∧ files.writable options.detail = false then
        { exitCode := 73
          stderr := "cannot open detail output: ".toList ++ options.detail ++ ['\n']
          output := some [] }
      else
        match loadModel files reply options with
        | .error error =>
          { exitCode := 65
            stderr := error.toList ++ ['\n']
            output := some []
            detail := if options.detail = [] then none else some [] }
        | .ok model => runRows options (options.toOptions h model) text

/-- Opening the output and the detail empties them. -/
def Files.opened (files : Files) (options : Arguments) : Files :=
  { files with
    content := fun name =>
      if name = options.output ∨ options.detail ≠ [] ∧ name = options.detail then some []
      else files.content name }

/-- `main`, where the input is open before any file is emptied and the rest is read afterwards. -/
def mainOnDisk (files : Files) (reply : ℕ → ModelState → LayaReply) (words : List Line) :
    Outcome :=
  match parseOptions words with
  | none => main files reply words
  | some options =>
    if files.content options.val.input = none then main files reply words
    else main (files.opened options.val) reply words

/-- What is read is not written, and what is written goes to two files. -/
structure Arguments.Separate (options : Arguments) : Prop where
  input : options.input ≠ options.output ∧ options.input ≠ options.detail
  decisionTape : options.model = "tape".toList →
    options.decisionTape ≠ options.output ∧ options.decisionTape ≠ options.detail
  detail : options.detail ≠ options.output

instance (options : Arguments) : Decidable options.Separate :=
  decidable_of_iff ((options.input ≠ options.output ∧ options.input ≠ options.detail) ∧
    (options.model = "tape".toList →
      options.decisionTape ≠ options.output ∧ options.decisionTape ≠ options.detail) ∧
    options.detail ≠ options.output)
    ⟨fun h => ⟨h.1, h.2.1, h.2.2⟩, fun h => ⟨h.input, h.decisionTape, h.detail⟩⟩

/-- Everything that a run needs is there, and every row of the input parses. -/
structure Ready (files : Files) (reply : ℕ → ModelState → LayaReply) (words : List Line)
    (options : { options : Arguments // options.Checked }) (model : Model)
    (rows : List MarketEvent) : Prop where
  parsed : parseOptions words = some options
  output : files.writable options.val.output = true
  detail : options.val.detail = [] ∨ files.writable options.val.detail = true
  model : loadModel files reply options.val = .ok model
  rows : ∃ text, files.content options.val.input = some text ∧
    readStream options.val.feedLatencyNs text = .ok rows

section Loop
variable {options : Options} {rowNumber : ℕ} {texts : List Line} {rows : List MarketEvent}

theorem mainLoop_of_parses (h : parseLines options.feedLatencyNs rowNumber texts = .ok rows)
    (detailed : Detailed) :
    mainLoop options rowNumber texts detailed =
      (none, rows.foldl (detailStep options) detailed) := by
  induction texts generalizing rowNumber rows detailed with
  | nil =>
    obtain rfl := Except.ok.inj h
    rfl
  | cons line texts ih =>
    rw [parseLines] at h
    cases hline : parseLine options.feedLatencyNs line with
    | none =>
      rw [hline] at h
      exact absurd h (by simp)
    | some row =>
      rw [hline] at h
      obtain ⟨later, hlater, rfl⟩ := map_eq_ok_iff.mp h
      rw [mainLoop, hline]
      exact ih hlater _

theorem mainLoop_of_invalid {row : ℕ}
    (h : parseLines options.feedLatencyNs rowNumber texts = .error row) (detailed : Detailed) :
    (mainLoop options rowNumber texts detailed).1 = some row := by
  induction texts generalizing rowNumber detailed with
  | nil => exact absurd h (by simp [parseLines])
  | cons line texts ih =>
    rw [parseLines] at h
    cases hline : parseLine options.feedLatencyNs line with
    | none =>
      rw [hline] at h
      rw [mainLoop, hline, Except.error.inj h]
    | some event =>
      rw [hline] at h
      rw [mainLoop, hline]
      cases hlater : parseLines options.feedLatencyNs (rowNumber + 1) texts with
      | error later =>
        rw [hlater] at h
        obtain rfl : later = row := Except.error.inj h
        exact ih hlater _
      | ok events =>
        rw [hlater] at h
        exact absurd h (by simp [Except.map])

end Loop

section Run
variable {files : Files} {reply : ℕ → ModelState → LayaReply} {words : List Line}
  {options : { options : Arguments // options.Checked }} {model : Model}
  {rows : List MarketEvent} {text : Line}

/-- The options of the replay that a command line asks for. -/
def replayOptions (options : { options : Arguments // options.Checked }) (model : Model) :
    Options :=
  options.val.toOptions options.property model

theorem runRows_of_parses
    (h : readStream options.val.feedLatencyNs text = .ok rows) :
    runRows options.val (replayOptions options model) text =
      { exitCode := 0
        stdout := metricsOf options.val (replay (replayOptions options model) rows)
        output := some (metricsOf options.val (replay (replayOptions options model) rows))
        detail := detailFile options.val (detailedReplay (replayOptions options model) rows) } := by
  have hparsed : parseLines (replayOptions options model).feedLatencyNs 0 (rowsOf text) =
      .ok rows := h
  have hloop := mainLoop_of_parses hparsed { state := initial (replayOptions options model) }
  rw [runRows, hloop, ← detailedReplay_state]
  rfl

theorem runRows_of_invalid {arguments : Arguments} {replayOptions : Options} {row : ℕ}
    (h : readStream replayOptions.feedLatencyNs text = .error row) :
    ∃ detail, runRows arguments replayOptions text =
      { exitCode := 65
        stderr := ("invalid replay row " ++ toString row ++ "\n").toList
        output := some []
        detail } := by
  have hloop := mainLoop_of_invalid h { state := initial replayOptions }
  rw [runRows]
  rcases hresult : mainLoop replayOptions 0 (rowsOf text) { state := initial replayOptions } with
    ⟨stopped, detailed⟩
  rw [hresult] at hloop
  obtain rfl : stopped = some row := hloop
  exact ⟨_, rfl⟩

theorem Ready.main_eq (h : Ready files reply words options model rows) :
    main files reply words =
      { exitCode := 0
        stdout := metricsOf options.val (replay (replayOptions options model) rows)
        output := some (metricsOf options.val (replay (replayOptions options model) rows))
        detail := detailFile options.val (detailedReplay (replayOptions options model) rows) } := by
  obtain ⟨text, hcontent, hrows⟩ := h.rows
  have hdetail : ¬ (options.val.detail ≠ [] ∧ files.writable options.val.detail = false) := by
    rintro ⟨hasked, hclosed⟩
    rcases h.detail with hnone | hopen
    · exact hasked hnone
    · rw [hclosed] at hopen
      exact Bool.false_ne_true hopen
  unfold main
  rw [h.parsed]
  obtain ⟨arguments, hchecked⟩ := options
  dsimp only at *
  rw [hcontent]
  dsimp only
  rw [if_neg (by rw [h.output]; exact Bool.noConfusion), if_neg hdetail, h.model]
  have hrun : runRows arguments (replayOptions ⟨arguments, hchecked⟩ model) text = _ :=
    runRows_of_parses hrows
  exact hrun

/-- Whatever is missing, nothing is reported. -/
structure Failed (outcome : Outcome) : Prop where
  exitCode : outcome.exitCode ∈ [64, 65, 66, 73]
  stderr : outcome.stderr ≠ []
  stdout : outcome.stdout = []
  output : ∀ text ∈ outcome.output, text = []

theorem failed_of_usage {text : Line} (h : text ≠ []) : Failed { exitCode := 64, stderr := text } :=
  ⟨by simp, h, rfl, by simp⟩

theorem usage_ne_nil : usage ≠ [] := by decide +kernel

theorem main_failed_or_ready (files : Files) (reply : ℕ → ModelState → LayaReply)
    (words : List Line) : Failed (main files reply words) ∨
      ∃ options model rows, Ready files reply words options model rows := by
  unfold main
  cases hparsed : parseOptions words with
  | none => exact .inl (failed_of_usage usage_ne_nil)
  | some options =>
    obtain ⟨arguments, hchecked⟩ := options
    dsimp only
    cases hcontent : files.content arguments.input with
    | none => exact .inl ⟨by simp, by simp, rfl, by simp⟩
    | some text =>
      dsimp only
      by_cases houtput : files.writable arguments.output = false
      · rw [if_pos houtput]
        exact .inl ⟨by simp, by simp, rfl, by simp⟩
      by_cases hdetail : arguments.detail ≠ [] ∧ files.writable arguments.detail = false
      · rw [if_neg houtput, if_pos hdetail]
        exact .inl ⟨by simp, by simp, rfl, by simp⟩
      rw [if_neg houtput, if_neg hdetail]
      cases hmodel : loadModel files reply arguments with
      | error error => exact .inl ⟨by simp, by simp, rfl, by simp⟩
      | ok model =>
        dsimp only
        cases hrows : readStream arguments.feedLatencyNs text with
        | error row =>
          have hinvalid : readStream (arguments.toOptions hchecked model).feedLatencyNs text =
            .error row := hrows
          obtain ⟨detail, hrun⟩ := runRows_of_invalid hinvalid
          rw [hrun]
          exact .inl ⟨by simp, by simp, rfl, by simp⟩
        | ok rows =>
          refine .inr ⟨⟨arguments, hchecked⟩, model, rows, hparsed, ?_, ?_, hmodel, text,
            hcontent, hrows⟩
          · simpa using houtput
          · by_contra hclosed
            rw [not_or] at hclosed
            exact hdetail ⟨hclosed.1, by simpa using hclosed.2⟩

theorem content_opened {name : Line} {arguments : Arguments} (houtput : name ≠ arguments.output)
    (hdetail : name ≠ arguments.detail) :
    (files.opened arguments).content name = files.content name :=
  if_neg (not_or.mpr ⟨houtput, fun h => hdetail h.2⟩)

theorem loadModel_opened {arguments : Arguments} (hmodel : arguments.model ∈ modelNames)
    (h : arguments.Separate) :
    loadModel (files.opened arguments) reply arguments = loadModel files reply arguments := by
  unfold loadModel
  split_ifs with hbaseline hhold hlaya
  · rfl
  · rfl
  · rfl
  · have htape : arguments.model = "tape".toList := by
      simp only [modelNames, List.mem_cons, List.not_mem_nil, or_false] at hmodel
      tauto
    rw [content_opened (h.decisionTape htape).1 (h.decisionTape htape).2]

/-- Emptying files that are not read makes no difference. -/
theorem mainOnDisk_eq_main (h : ∀ options ∈ parseOptions words, options.val.Separate) :
    mainOnDisk files reply words = main files reply words := by
  unfold mainOnDisk
  cases hparsed : parseOptions words with
  | none => rfl
  | some options =>
    have hseparate := h options hparsed
    dsimp only
    split_ifs with hinput
    · rfl
    · unfold main
      rw [hparsed]
      dsimp only
      rw [content_opened hseparate.input.1 hseparate.input.2,
        loadModel_opened options.property.model hseparate]
      rfl

/-- Whatever is missing, nothing is reported. With everything in place, what is reported is the
replay of the rows, and it is read back unless the name of the input is unprintable. -/
theorem main_reports (files : Files) (reply : ℕ → ModelState → LayaReply) (words : List Line)
    (hseparate : ∀ options ∈ parseOptions words, options.val.Separate) :
    Failed (mainOnDisk files reply words) ∨
      ∃ options model rows, Ready files reply words options model rows ∧
        mainOnDisk files reply words =
          { exitCode := 0
            stdout := metricsOf options.val (replay (replayOptions options model) rows)
            output := some (metricsOf options.val (replay (replayOptions options model) rows))
            detail :=
              detailFile options.val (detailedReplay (replayOptions options model) rows) } ∧
        loads (metricsOf options.val (replay (replayOptions options model) rows)) =
          if Printable options.val.input then
            some (reportNode options.val (replay (replayOptions options model) rows))
          else none := by
  rw [mainOnDisk_eq_main hseparate]
  rcases main_failed_or_ready files reply words with hfailed | ⟨options, model, rows, hready⟩
  · exact .inl hfailed
  · exact .inr ⟨options, model, rows, hready, hready.main_eq,
      loads_metricsJson options.property.model _ _⟩

/-- One row, with the default model. -/
theorem main_reports_oneRow :
    let files : Files :=
      { content := fun name =>
          if name = "in.csv".toList then some "1,1000,10000,10001,5,5,0,0,none\n".toList else none
        writable := fun _ => true }
    let words := ["--input", "in.csv", "--output", "out.json"].map String.toList
    (mainOnDisk files (fun _ _ => .failed 0 "") words).exitCode = 0 ∧
      ∃ options model rows, Ready files (fun _ _ => .failed 0 "") words options model rows ∧
        loads (metricsOf options.val (replay (replayOptions options model) rows)) =
          if Printable options.val.input then
            some (reportNode options.val (replay (replayOptions options model) rows))
          else none := by
  intro files words
  have hexit : (mainOnDisk files (fun _ _ => .failed 0 "") words).exitCode = 0 := by
    decide +kernel
  refine ⟨hexit, ?_⟩
  rcases main_reports files (fun _ _ => .failed 0 "") words (by decide +kernel) with
    hfailed | ⟨options, model, rows, hready, _, hread⟩
  · have hcode := hfailed.exitCode
    rw [hexit] at hcode
    exact absurd hcode (by decide)
  · exact ⟨options, model, rows, hready, hread⟩

end Run
end Astra.Replay
