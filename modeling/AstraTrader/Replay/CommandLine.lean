import AstraTrader.Process.Options
import AstraTrader.Replay.Fields
import AstraTrader.Replay.Model

/-! `parse_options` of `astra_replay`. A numeric option whose value does not read as a number has
already stepped over its name, so the value is tried as the name of an option further down. -/

namespace Astra.Replay
open Process Text FixedWidth

/-- The members of `Options`, as `parse_options` fills them in. -/
structure Arguments where
  input : Line := []
  output : Line := []
  detail : Line := []
  model : Line := "baseline".toList
  decisionTape : Line := []
  layaHost : Line := "127.0.0.1".toList
  layaPort : Line := "8000".toList
  decisionEvery : UInt64 := 1000
  startNs : Int64 := 0
  endNs : Int64 := Int64.maxValue
  feedLatencyNs : Int64 := 1000000
  probabilityThresholdPpm : UInt32 := 550000
  takerFeePpm : UInt32 := 500
  marketSlippagePpm : UInt32 := 100
  layaTimeoutMs : Int64 := 250
  deriving DecidableEq

/-- An option that keeps its value as a text. -/
def textOption (name : String) (set : Line → Arguments → Arguments) : Handler Line Arguments where
  name := '-' :: '-' :: name.toList
  read value := some (set value)

/-- An option whose value `parse_integer` has to read. -/
def numberOption {α : Type} (name : String) (parse : Line → Option α)
    (set : α → Arguments → Arguments) : Handler Line Arguments where
  name := '-' :: '-' :: name.toList
  read value := (parse value).map set

def textOptions : List (Handler Line Arguments) :=
  [textOption "input" fun value options => { options with input := value },
    textOption "output" fun value options => { options with output := value },
    textOption "detail" fun value options => { options with detail := value },
    textOption "model" fun value options => { options with model := value },
    textOption "decision-tape" fun value options => { options with decisionTape := value },
    textOption "laya-host" fun value options => { options with layaHost := value },
    textOption "laya-port" fun value options => { options with layaPort := value }]

def numberOptions : List (Handler Line Arguments) :=
  [numberOption "decision-every" parseUInt64 fun value options =>
      { options with decisionEvery := value },
    numberOption "start-ns" parseInt64 fun value options => { options with startNs := value },
    numberOption "end-ns" parseInt64 fun value options => { options with endNs := value },
    numberOption "feed-latency-ns" parseInt64 fun value options =>
      { options with feedLatencyNs := value },
    numberOption "probability-threshold-ppm" parseUInt32 fun value options =>
      { options with probabilityThresholdPpm := value },
    numberOption "taker-fee-ppm" parseUInt32 fun value options =>
      { options with takerFeePpm := value },
    numberOption "market-slippage-ppm" parseUInt32 fun value options =>
      { options with marketSlippagePpm := value },
    numberOption "laya-timeout-ms" parseInt64 fun value options =>
      { options with layaTimeoutMs := value }]

/-- The chain of `parse_options`. -/
def optionTable : List (Handler Line Arguments) := textOptions ++ numberOptions

def modelNames : List Line :=
  ["baseline".toList, "hold".toList, "laya".toList, "tape".toList]

/-- The checks that `parse_options` ends with. -/
structure Arguments.Checked (options : Arguments) : Prop where
  input : options.input ≠ []
  output : options.output ≠ []
  decisionEvery : 0 < options.decisionEvery
  model : options.model ∈ modelNames
  decisionTape : options.model ≠ "tape".toList ∨ options.decisionTape ≠ []
  feedLatencyNs : 0 ≤ options.feedLatencyNs
  layaTimeoutMs : 0 < options.layaTimeoutMs
  takerFeePpm : options.takerFeePpm ≤ 1000000
  marketSlippagePpm : options.marketSlippagePpm ≤ 1000000

instance (options : Arguments) : Decidable options.Checked :=
  decidable_of_iff (options.input ≠ [] ∧ options.output ≠ [] ∧ 0 < options.decisionEvery ∧
    modelNames.contains options.model ∧
    (options.model ≠ "tape".toList ∨ options.decisionTape ≠ []) ∧ 0 ≤ options.feedLatencyNs ∧
    0 < options.layaTimeoutMs ∧ options.takerFeePpm ≤ 1000000 ∧
    options.marketSlippagePpm ≤ 1000000)
    ⟨fun h => ⟨h.1, h.2.1, h.2.2.1, List.contains_iff_mem.mp h.2.2.2.1, h.2.2.2.2.1,
      h.2.2.2.2.2.1, h.2.2.2.2.2.2.1, h.2.2.2.2.2.2.2.1, h.2.2.2.2.2.2.2.2⟩,
    fun h => ⟨h.input, h.output, h.decisionEvery, List.contains_iff_mem.mpr h.model,
      h.decisionTape, h.feedLatencyNs, h.layaTimeoutMs, h.takerFeePpm, h.marketSlippagePpm⟩⟩

/-- The words are those behind the name of the program. -/
def parseOptions (words : List Line) : Option { options : Arguments // options.Checked } := do
  let options ← readWords optionTable words {}
  if h : options.Checked then some ⟨options, h⟩ else none

/-- The options with a number for their value. -/
def numericNames : List Line := numberOptions.map (·.name)

section Table
variable {word : Line}

theorem readNat_dash (rest : Line) : readNat ('-' :: rest) = none := by
  simp [readNat]

theorem parseUnsigned_dashes (bits : ℕ) (rest : Line) :
    parseUnsigned bits ('-' :: rest) = none := by
  rw [parseUnsigned, readNat_dash]
  rfl

theorem parseInt64_dashes (rest : Line) : parseInt64 ('-' :: '-' :: rest) = none := by
  rw [parseInt64, readInt, readNat_dash]
  rfl

theorem text_of_mem {handler : Handler Line Arguments} (h : handler ∈ textOptions) :
    (∃ rest, handler.name = '-' :: '-' :: rest) ∧ handler.name ∉ numericNames ∧
      ∀ value, (handler.read value).isSome = true := by
  simp only [textOptions, List.mem_cons, List.not_mem_nil, or_false] at h
  rcases h with rfl | rfl | rfl | rfl | rfl | rfl | rfl <;>
    exact ⟨⟨_, rfl⟩, by decide, fun _ => rfl⟩

theorem number_of_mem {handler : Handler Line Arguments} (h : handler ∈ numberOptions) :
    (∃ rest, handler.name = '-' :: '-' :: rest) ∧
      ∀ rest, handler.read ('-' :: '-' :: rest) = none := by
  simp only [numberOptions, List.mem_cons, List.not_mem_nil, or_false] at h
  rcases h with rfl | rfl | rfl | rfl | rfl | rfl | rfl | rfl <;>
    refine ⟨⟨_, rfl⟩, fun rest => ?_⟩ <;>
    simp [numberOption, parseUInt64, parseUInt32, parseUnsigned_dashes, parseInt64_dashes]

theorem kinds_optionTable : Kinds optionTable (· ∈ numericNames) where
  nodup := by decide
  refuses handler hmem hnumeric other hother := by
    obtain ⟨rest, hrest⟩ : ∃ rest, other.name = '-' :: '-' :: rest := by
      rcases List.mem_append.mp hother with htext | hnumber
      · exact (text_of_mem htext).1
      · exact (number_of_mem hnumber).1
    rcases List.mem_append.mp hmem with htext | hnumber
    · exact absurd hnumeric (text_of_mem htext).2.1
    · rw [hrest]
      exact (number_of_mem hnumber).2 rest
  takes handler hmem hfree value := by
    rcases List.mem_append.mp hmem with htext | hnumber
    · exact (text_of_mem htext).2.2 value
    · exact absurd (List.mem_map_of_mem hnumber) hfree

end Table

/-- The command lines that are accepted, and the options they leave. A setting is an option with
a value that fits it, behind numeric options of earlier places that are passed over. -/
theorem parseOptions_eq_some_iff {words : List Line}
    {options : { options : Arguments // options.Checked }} :
    parseOptions words = some options ↔ ∃ line : List (Setting Line),
      (∀ setting ∈ line, setting.Fits optionTable (· ∈ numericNames)) ∧
      words = line.flatMap Setting.words ∧
      options.val = line.foldl (fun options setting => setting.apply optionTable options) {} := by
  rw [← readWords_eq_some_iff kinds_optionTable, parseOptions]
  constructor
  · intro h
    obtain ⟨read, hread, hchecked⟩ := Option.bind_eq_some_iff.mp h
    split_ifs at hchecked
    rw [hread, ← Option.some.inj hchecked]
  · intro h
    refine Option.bind_eq_some_iff.mpr ⟨_, h, ?_⟩
    rw [dif_pos options.property]

end Astra.Replay
